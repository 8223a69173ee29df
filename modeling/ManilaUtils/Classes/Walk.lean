import Mathlib.Data.Set.Card
import Mathlib.Logic.Relation

/-! # Walking a class hierarchy

`walk_class_hierarchy(clazz)` yields the subclasses of `clazz`, most derived
first. It goes through `clazz.__subclasses__()` in order and skips each class
already in `encountered`, a list that all the recursive calls share. Any other
class it appends to `encountered`, yields what the walk below that class
yields, and then yields the class itself.

`subclasses` gives `__subclasses__()`, and a class may have several parents.
The generator is read to its end, so a walk is a function that returns what it
yields together with the final `encountered`. `fuel` bounds its recursion.

In an acyclic hierarchy, each class in `encountered` is finished, with all its
descendants encountered, or lies on the current call stack, as an ancestor of
the class being walked. From this, a walk yields each descendant of `clazz`
once, and every class after all its descendants.
-/

namespace ManilaUtils.Classes

open Relation
open scoped List

variable {α : Type} (subclasses : α → List α)

/-- The body of the `for` loop over `__subclasses__()`: `acc` holds what was
yielded so far and `encountered`, and `walkSub` is the recursive call. -/
def visit [DecidableEq α] (walkSub : α → List α → Option (List α × List α))
    (acc : List α × List α) (subclass : α) : Option (List α × List α) :=
  if subclass ∈ acc.2 then some acc
  else (walkSub subclass (acc.2 ++ [subclass])).map fun r => (acc.1 ++ r.1 ++ [subclass], r.2)

/-- `walk_class_hierarchy(clazz, encountered)`: what it yields and the final
`encountered`, `none` when `fuel` runs out. -/
def walk [DecidableEq α] : Nat → α → List α → Option (List α × List α)
  | 0, _, _ => none
  | fuel + 1, clazz, encountered =>
      (subclasses clazz).foldlM (visit (walk fuel)) ([], encountered)

/-- `list(walk_class_hierarchy(clazz))`, which starts with `encountered = []`. -/
def walkClassHierarchy [DecidableEq α] (fuel : Nat) (clazz : α) : Option (List α) :=
  (walk subclasses fuel clazz []).map Prod.fst

/-- `y` is a proper descendant of `x`. -/
def Descends (x y : α) : Prop := TransGen (fun a b => b ∈ subclasses a) x y

/-- All the descendants of `y` are in `encountered`. -/
def Closed (encountered : List α) (y : α) : Prop :=
  ∀ d, Descends subclasses y d → d ∈ encountered

/-- Every class comes after its descendants. -/
def PostOrdered (out : List α) : Prop :=
  ∀ a ∈ out, ∀ b ∈ out, Descends subclasses a b → [b, a] <+ out

/-- What a walk from `clazz` needs of `encountered`: each class in it is closed
or is `clazz` or one of its ancestors. -/
def WalkPre (clazz : α) (encountered : List α) : Prop :=
  ∀ e ∈ encountered,
    Closed subclasses encountered e ∨ ReflTransGen (fun a b => b ∈ subclasses a) e clazz

/-- What a walk from `clazz` started with `encountered` does: it yields, once
each and most derived first, the descendants of `clazz` not yet encountered,
and it leaves them encountered and closed. -/
structure WalkPost (clazz : α) (encountered out encountered' : List α) : Prop where
  encountered_iff : ∀ y, y ∈ encountered' ↔ y ∈ encountered ∨ y ∈ out
  nodup : out.Nodup
  mem_iff : ∀ y, y ∈ out ↔ Descends subclasses clazz y ∧ y ∉ encountered
  closed : ∀ y ∈ out, Closed subclasses encountered' y
  ordered : PostOrdered subclasses out

/-- The `for` loop of a walk from `clazz` after the subclasses `done`. -/
structure LoopInv (clazz : α) (encountered done : List α) (acc : List α × List α) : Prop where
  encountered_iff : ∀ y, y ∈ acc.2 ↔ y ∈ encountered ∨ y ∈ acc.1
  nodup : acc.1.Nodup
  sound : ∀ y ∈ acc.1, Descends subclasses clazz y ∧ y ∉ encountered
  closed : ∀ y ∈ acc.1, Closed subclasses acc.2 y
  ordered : PostOrdered subclasses acc.1
  done : ∀ s ∈ done, s ∈ acc.2 ∧ Closed subclasses acc.2 s

/-- A recursive call that meets the specification of a walk. -/
def WalkSpec (walkSub : α → List α → Option (List α × List α)) : Prop :=
  ∀ clazz encountered out encountered', WalkPre subclasses clazz encountered →
    walkSub clazz encountered = some (out, encountered') →
      WalkPost subclasses clazz encountered out encountered'

variable {subclasses}

/-! ## Lemmas on the invariants -/

theorem Closed.mono {encountered encountered' : List α} {y : α}
    (h : Closed subclasses encountered y) (hsub : ∀ z ∈ encountered, z ∈ encountered') :
    Closed subclasses encountered' y :=
  fun d hd => hsub d (h d hd)

theorem sublist_pair {l₁ l₂ : List α} {a b : α} (hb : b ∈ l₁) (ha : a ∈ l₂) :
    [b, a] <+ l₁ ++ l₂ :=
  (List.singleton_sublist.mpr hb).append (List.singleton_sublist.mpr ha)

namespace PostOrdered

theorem append {l₁ l₂ : List α} (h₁ : PostOrdered subclasses l₁) (h₂ : PostOrdered subclasses l₂)
    (hcross : ∀ a ∈ l₁, ∀ b ∈ l₂, ¬ Descends subclasses a b) :
    PostOrdered subclasses (l₁ ++ l₂) := by
  intro a ha b hb hab
  rcases List.mem_append.mp ha with ha | ha <;> rcases List.mem_append.mp hb with hb | hb
  · exact (h₁ a ha b hb hab).trans (List.sublist_append_left l₁ l₂)
  · exact absurd hab (hcross a ha b hb)
  · exact sublist_pair hb ha
  · exact (h₂ a ha b hb hab).trans (List.sublist_append_right l₁ l₂)

theorem singleton (hacyclic : ∀ c, ¬ Descends subclasses c c) (s : α) :
    PostOrdered subclasses [s] := by
  intro a ha b hb hab
  rw [List.mem_singleton] at ha hb
  rw [ha, hb] at hab
  exact absurd hab (hacyclic s)

end PostOrdered

/-- A walk leaves every descendant of its class encountered. -/
theorem WalkPost.closed_root {clazz : α} {encountered out encountered' : List α}
    (h : WalkPost subclasses clazz encountered out encountered') :
    Closed subclasses encountered' clazz := by
  intro d hd
  rw [h.encountered_iff, h.mem_iff]
  by_cases hmem : d ∈ encountered
  exacts [.inl hmem, .inr ⟨hd, hmem⟩]

/-! ## One turn of the loop, then the whole walk -/

section Loop

variable (hacyclic : ∀ c, ¬ Descends subclasses c c)
variable {clazz s : α} {encountered done : List α} {acc : List α × List α}

theorem LoopInv.init : LoopInv subclasses clazz encountered [] ([], encountered) where
  encountered_iff := by simp
  nodup := List.nodup_nil
  sound := by simp
  closed := by simp
  ordered := by simp [PostOrdered]
  done := by simp

/-- The walk of a subclass not yet encountered starts as a walk needs. -/
theorem LoopInv.pre_sub (hpre : WalkPre subclasses clazz encountered)
    (hinv : LoopInv subclasses clazz encountered done acc) (hs : s ∈ subclasses clazz) :
    WalkPre subclasses s (acc.2 ++ [s]) := by
  have hsub : ∀ z ∈ acc.2, z ∈ acc.2 ++ [s] := fun z hz => List.mem_append_left _ hz
  intro e he
  rcases List.mem_append.mp he with he | he
  · rcases (hinv.encountered_iff e).mp he with henc | hout
    · rcases hpre e henc with hclosed | hancestor
      · exact .inl (hclosed.mono fun z hz => hsub z ((hinv.encountered_iff z).mpr (.inl hz)))
      · exact .inr (hancestor.tail hs)
    · exact .inl ((hinv.closed e hout).mono hsub)
  · exact .inr (List.mem_singleton.mp he ▸ ReflTransGen.refl)

include hacyclic in
/-- A subclass met again is closed: it is no ancestor, as that would be a cycle. -/
theorem LoopInv.closed_of_mem (hpre : WalkPre subclasses clazz encountered)
    (hinv : LoopInv subclasses clazz encountered done acc) (hs : s ∈ subclasses clazz)
    (hmem : s ∈ acc.2) : Closed subclasses acc.2 s := by
  rcases (hinv.encountered_iff s).mp hmem with henc | hout
  · rcases hpre s henc with hclosed | hancestor
    · exact hclosed.mono fun z hz => (hinv.encountered_iff z).mpr (.inl hz)
    · exact absurd (TransGen.tail' hancestor hs) (hacyclic s)
  · exact hinv.closed s hout

/-- The loop over all of `__subclasses__()` gives what a walk promises. -/
theorem LoopInv.post {out encountered' : List α}
    (hinv : LoopInv subclasses clazz encountered (subclasses clazz) (out, encountered')) :
    WalkPost subclasses clazz encountered out encountered' where
  encountered_iff := hinv.encountered_iff
  nodup := hinv.nodup
  mem_iff y := by
    refine ⟨fun hy => hinv.sound y hy, fun ⟨hdesc, hnot⟩ => ?_⟩
    obtain ⟨t, ht, hty⟩ := TransGen.head'_iff.mp hdesc
    obtain ⟨htmem, htclosed⟩ := hinv.done t ht
    have hmem : y ∈ encountered' := by
      rcases reflTransGen_iff_eq_or_transGen.mp hty with rfl | hty
      exacts [htmem, htclosed y hty]
    exact ((hinv.encountered_iff y).mp hmem).resolve_left hnot
  closed := hinv.closed
  ordered := hinv.ordered

include hacyclic in
/-- A subclass already encountered is skipped. -/
theorem LoopInv.skip (hpre : WalkPre subclasses clazz encountered)
    (hinv : LoopInv subclasses clazz encountered done acc) (hs : s ∈ subclasses clazz)
    (hmem : s ∈ acc.2) : LoopInv subclasses clazz encountered (done ++ [s]) acc := by
  refine { hinv with done := fun t ht => ?_ }
  rcases List.mem_append.mp ht with ht | ht
  · exact hinv.done t ht
  · rw [List.mem_singleton.mp ht]
    exact ⟨hmem, hinv.closed_of_mem hacyclic hpre hs hmem⟩

include hacyclic in
/-- A subclass not yet encountered is walked, with `encountered` shared, and
then yielded. -/
theorem LoopInv.descend {out encountered' : List α}
    (hinv : LoopInv subclasses clazz encountered done acc) (hs : s ∈ subclasses clazz)
    (hmem : s ∉ acc.2) (hpost : WalkPost subclasses s (acc.2 ++ [s]) out encountered') :
    LoopInv subclasses clazz encountered (done ++ [s]) (acc.1 ++ out ++ [s], encountered') := by
  have hgrow : ∀ z ∈ acc.2, z ∈ encountered' :=
    fun z hz => (hpost.encountered_iff z).mpr (.inl (List.mem_append_left _ hz))
  have hfresh : ∀ y ∈ out, y ∉ acc.2 ∧ y ≠ s := fun y hy => by
    simpa [not_or] using ((hpost.mem_iff y).mp hy).2
  have hold : ∀ y ∈ acc.1, y ∈ acc.2 := fun y hy => (hinv.encountered_iff y).mpr (.inr hy)
  have hsdone : s ∈ encountered' ∧ Closed subclasses encountered' s :=
    ⟨(hpost.encountered_iff s).mpr (.inl (by simp)), hpost.closed_root⟩
  refine ⟨fun y => ?_, ?_, fun y hy => ?_, fun y hy => ?_, ?_, fun t ht => ?_⟩
  · rw [hpost.encountered_iff, List.mem_append, hinv.encountered_iff]
    simp only [List.mem_append, List.mem_singleton]
    tauto
  · refine List.nodup_append.mpr ⟨List.nodup_append.mpr ⟨hinv.nodup, hpost.nodup, ?_⟩,
      List.nodup_singleton s, ?_⟩
    · intro y hy1 hy2
      exact (hfresh y hy2).1 (hold y hy1)
    · intro y hy hys
      rw [List.mem_singleton.mp hys] at hy
      rcases List.mem_append.mp hy with hy | hy
      exacts [hmem (hold s hy), (hfresh s hy).2 rfl]
  · simp only [List.mem_append, List.mem_singleton] at hy
    rcases hy with (hy | hy) | rfl
    · exact hinv.sound y hy
    · obtain ⟨hdesc, hnot⟩ := (hpost.mem_iff y).mp hy
      exact ⟨TransGen.head hs hdesc,
        fun h => hnot (List.mem_append_left _ ((hinv.encountered_iff y).mpr (.inl h)))⟩
    · exact ⟨TransGen.single hs, fun h => hmem ((hinv.encountered_iff y).mpr (.inl h))⟩
  · simp only [List.mem_append, List.mem_singleton] at hy
    rcases hy with (hy | hy) | rfl
    exacts [(hinv.closed y hy).mono hgrow, hpost.closed y hy, hsdone.2]
  · refine (hinv.ordered.append hpost.ordered ?_).append (PostOrdered.singleton hacyclic s) ?_
    · exact fun a ha b hb hab => (hfresh b hb).1 (hinv.closed a ha b hab)
    · intro a ha b hb hab
      rw [List.mem_singleton.mp hb] at hab
      rcases List.mem_append.mp ha with ha | ha
      · exact hmem (hinv.closed a ha s hab)
      · exact hacyclic s (((hpost.mem_iff a).mp ha).1.trans hab)
  · rcases List.mem_append.mp ht with ht | ht
    · exact ⟨hgrow t (hinv.done t ht).1, (hinv.done t ht).2.mono hgrow⟩
    · exact List.mem_singleton.mp ht ▸ hsdone

include hacyclic in
/-- A subclass has fewer descendants than its parent. -/
theorem ncard_descends_lt [Finite α] {x : α} (hs : s ∈ subclasses x) :
    {y | Descends subclasses s y}.ncard < {y | Descends subclasses x y}.ncard :=
  Set.ncard_lt_ncard ⟨fun _ hy => TransGen.head hs hy,
    fun hsub => hacyclic s (hsub (TransGen.single hs))⟩

include hacyclic in
theorem ncard_descends_lt_card [Fintype α] (x : α) :
    {y | Descends subclasses x y}.ncard < Fintype.card α := by
  rw [← Nat.card_eq_fintype_card, ← Set.ncard_univ]
  exact Set.ncard_lt_ncard ⟨Set.subset_univ _, fun h => hacyclic x (h (Set.mem_univ x))⟩

variable [DecidableEq α]

include hacyclic in
/-- One turn of the `for` loop keeps the invariant. -/
theorem visit_inv {walkSub : α → List α → Option (List α × List α)}
    (hwalk : WalkSpec subclasses walkSub) {acc' : List α × List α}
    (hpre : WalkPre subclasses clazz encountered)
    (hinv : LoopInv subclasses clazz encountered done acc) (hs : s ∈ subclasses clazz)
    (h : visit walkSub acc s = some acc') :
    LoopInv subclasses clazz encountered (done ++ [s]) acc' := by
  unfold visit at h
  split_ifs at h with hmem
  · cases h
    exact hinv.skip hacyclic hpre hs hmem
  · obtain ⟨⟨out, encountered'⟩, hsub, rfl⟩ := Option.map_eq_some'.mp h
    exact hinv.descend hacyclic hs hmem (hwalk s _ out encountered' (hinv.pre_sub hpre hs) hsub)

include hacyclic in
/-- The whole `for` loop keeps the invariant. -/
theorem foldlM_visit_inv {walkSub : α → List α → Option (List α × List α)}
    (hwalk : WalkSpec subclasses walkSub) (hpre : WalkPre subclasses clazz encountered) :
    ∀ {l done : List α} {acc r : List α × List α}, (∀ t ∈ l, t ∈ subclasses clazz) →
      LoopInv subclasses clazz encountered done acc → l.foldlM (visit walkSub) acc = some r →
        LoopInv subclasses clazz encountered (done ++ l) r
  | [], done, acc, r, _, hinv, h => by
      cases h
      simpa using hinv
  | t :: l, done, acc, r, hl, hinv, h => by
      rw [List.foldlM_cons] at h
      cases hvisit : visit walkSub acc t with
      | none => simp [hvisit] at h
      | some acc' =>
          simp only [hvisit, Option.bind_eq_bind, Option.some_bind] at h
          have hstep := visit_inv hacyclic hwalk hpre hinv (hl t (List.mem_cons_self t l)) hvisit
          simpa using foldlM_visit_inv hwalk hpre (fun u hu => hl u (List.mem_cons_of_mem t hu))
            hstep h

include hacyclic in
/-- A walk that returns meets its specification. -/
theorem walk_post : ∀ fuel, WalkSpec subclasses (walk subclasses fuel)
  | 0 => fun _ _ _ _ _ h => nomatch h
  | fuel + 1 => fun _ _ _ _ hpre h => by
      have hloop := foldlM_visit_inv hacyclic (walk_post fuel) hpre (fun _ ht => ht) LoopInv.init h
      exact LoopInv.post (by simpa using hloop)

/-! ## Enough fuel -/

theorem foldlM_visit_isSome {walkSub : α → List α → Option (List α × List α)} {l : List α}
    (hsome : ∀ t ∈ l, ∀ e, ∃ r, walkSub t e = some r) (acc : List α × List α) :
    ∃ r, l.foldlM (visit walkSub) acc = some r := by
  induction l generalizing acc with
  | nil => exact ⟨acc, rfl⟩
  | cons t l ih =>
      have hvisit : ∃ acc', visit walkSub acc t = some acc' := by
        unfold visit
        split_ifs
        · exact ⟨acc, rfl⟩
        · obtain ⟨r, hr⟩ := hsome t (List.mem_cons_self t l) (acc.2 ++ [t])
          exact ⟨_, by rw [hr]; rfl⟩
      obtain ⟨acc', hacc'⟩ := hvisit
      obtain ⟨r, hr⟩ := ih (fun u hu => hsome u (List.mem_cons_of_mem t hu)) acc'
      exact ⟨r, by rw [List.foldlM_cons, hacc']; exact hr⟩

include hacyclic in
/-- A walk from `x` returns once `fuel` exceeds the number of descendants of `x`. -/
theorem walk_isSome [Finite α] :
    ∀ fuel (x : α) (e : List α), {y | Descends subclasses x y}.ncard < fuel →
      ∃ r, walk subclasses fuel x e = some r
  | 0, _, _, h => absurd h (Nat.not_lt_zero _)
  | fuel + 1, _, _, h => foldlM_visit_isSome (fun _ ht e' =>
      walk_isSome fuel _ e' (by have := ncard_descends_lt hacyclic ht; omega)) _

end Loop

/-! ## The walk of a finite acyclic hierarchy -/

/-- In a finite acyclic hierarchy, `list(walk_class_hierarchy(clazz))` holds each
proper descendant of `clazz` once and nothing else, and every class in it comes
after all its descendants. -/
theorem walkClassHierarchy_postorder [DecidableEq α] [Fintype α]
    (hacyclic : ∀ c, ¬ Descends subclasses c c) (clazz : α) (fuel : Nat)
    (hfuel : Fintype.card α ≤ fuel) :
    ∃ out, walkClassHierarchy subclasses fuel clazz = some out ∧ out.Nodup ∧
      (∀ y, y ∈ out ↔ Descends subclasses clazz y) ∧
      ∀ x ∈ out, ∀ y ∈ out, Descends subclasses x y → [y, x] <+ out := by
  obtain ⟨⟨out, encountered'⟩, h⟩ :=
    walk_isSome hacyclic fuel clazz [] ((ncard_descends_lt_card hacyclic clazz).trans_le hfuel)
  have hpost := walk_post hacyclic fuel clazz [] out encountered' (fun _ he => nomatch he) h
  exact ⟨out, by simp [walkClassHierarchy, h], hpost.nodup,
    fun y => by simp [hpost.mem_iff], hpost.ordered⟩

/-- A hierarchy in which every subclass has a larger rank than its parent is acyclic. -/
theorem not_descends_self_of_rank (rank : α → Nat)
    (hrank : ∀ a, ∀ b ∈ subclasses a, rank a < rank b) (c : α) : ¬ Descends subclasses c c := by
  suffices h : ∀ {a b}, Descends subclasses a b → rank a < rank b from fun hc => (h hc).false
  intro a b hab
  induction hab with
  | single hab => exact hrank _ _ hab
  | tail _ hbc ih => exact ih.trans (hrank _ _ hbc)

/-- A diamond: `1` and `2` derive from `0`, and `3` derives from both. -/
def diamond : Fin 4 → List (Fin 4)
  | 0 => [1, 2]
  | 1 => [3]
  | 2 => [3]
  | 3 => []

theorem walkClassHierarchy_postorder_diamond :
    ∃ out, walkClassHierarchy diamond 4 0 = some out ∧ out.Nodup ∧
      (∀ y, y ∈ out ↔ Descends diamond 0 y) ∧
      ∀ x ∈ out, ∀ y ∈ out, Descends diamond x y → [y, x] <+ out :=
  walkClassHierarchy_postorder (not_descends_self_of_rank Fin.val (by decide)) 0 4 (by simp)

/-- `3` is reached through `1` first and skipped under `2`, and still comes before both. -/
example : walkClassHierarchy diamond 4 0 = some [3, 1, 2] := rfl

end ManilaUtils.Classes
