import Mathlib.Data.List.DropRight
import Mathlib.Data.List.Infix
import Mathlib.Data.List.Basic

/-! # Python string operations

The injection guard and the size parser of `manila/utils.py` look at their
arguments only through a few `str` methods: `strip()`, `split()`, `find()` and
the `in` test. A string is a list of characters here, and whitespace is the set
of characters CPython's `str.isspace` accepts, which `strip()` and `split()`
both use.
-/

namespace ManilaUtils.PyStr

/-- `c.isspace()`: the characters CPython treats as whitespace. -/
def isSpace (c : Char) : Bool :=
  let n := c.toNat
  (9 ≤ n && n ≤ 13) || (28 ≤ n && n ≤ 32) || n == 0x85 || n == 0xa0 || n == 0x1680 ||
    (0x2000 ≤ n && n ≤ 0x200a) || n == 0x2028 || n == 0x2029 || n == 0x202f ||
    n == 0x205f || n == 0x3000

/-- `s.strip()` with no argument. -/
def strip (s : List Char) : List Char :=
  (s.dropWhile isSpace).rdropWhile isSpace

/-- `s.split()` with no argument: the nonempty runs between whitespace. -/
def split (s : List Char) : List (List Char) :=
  (s.splitOnP isSpace).filter fun word => !word.isEmpty

/-- `s.replace(old, new)` for a one-character `old` and `new`. -/
def replace (s : List Char) (old new : Char) : List Char :=
  s.map fun c => if c = old then new else c

/-- The index at which `sub` first starts in `s`. -/
def findIdx? (sub : List Char) : List Char → Option Nat
  | [] => if sub.isPrefixOf [] then some 0 else none
  | c :: s => if sub.isPrefixOf (c :: s) then some 0 else (findIdx? sub s).map (· + 1)

/-- `s.find(sub)`: the first index of `sub` in `s`, or `-1`. -/
def find (s sub : List Char) : Int :=
  match findIdx? sub s with
  | some i => i
  | none => -1

/-- `i` is where `sub` first occurs in `s`. -/
def FirstOccurrence (s sub : List Char) (i : Nat) : Prop :=
  sub <+: s.drop i ∧ ∀ j < i, ¬ sub <+: s.drop j

/-! ## `strip` -/

theorem strip_head?_not_space (s : List Char) : ∀ c ∈ (strip s).head?, isSpace c = false := by
  intro c hc
  obtain ⟨rest, hrest⟩ := List.rdropWhile_prefix isSpace (s.dropWhile isSpace)
  have hne : s.dropWhile isSpace ≠ [] := by
    intro hnil
    simp [strip, hnil] at hc
  have hhead : (s.dropWhile isSpace).head? = some c := by
    rw [← hrest, List.head?_append, ← strip, hc]
    rfl
  rw [List.head?_eq_head hne, Option.some.injEq] at hhead
  exact hhead ▸ List.head_dropWhile_not isSpace s hne

theorem strip_getLast?_not_space (s : List Char) :
    ∀ c ∈ (strip s).getLast?, isSpace c = false := by
  intro c hc
  have hne : strip s ≠ [] := by
    intro hnil
    simp [hnil] at hc
  rw [List.getLast?_eq_getLast _ hne, Option.mem_def, Option.some.injEq] at hc
  rw [← hc]
  simpa using List.rdropWhile_last_not isSpace (s.dropWhile isSpace) hne

/-- Stripping the characters `p` holds of from both ends of a text with none of
them, followed by some of them, gives the text. -/
theorem dropWhile_rdropWhile_append {p : Char → Bool} {s t : List Char}
    (hs : ∀ c ∈ s, p c = false) (ht : ∀ c ∈ t, p c = true) :
    ((s ++ t).dropWhile p).rdropWhile p = s := by
  cases s with
  | nil => simp [List.dropWhile_eq_nil_iff.mpr ht]
  | cons c s =>
      have hdrop : (c :: s ++ t).dropWhile p = c :: s ++ t :=
        List.dropWhile_cons_of_neg (by simp [hs c (List.mem_cons_self c s)])
      have hlast : ∀ h : c :: s ≠ [], p ((c :: s).getLast h) = false :=
        fun h => hs _ (List.getLast_mem h)
      rw [hdrop, List.rdropWhile, List.reverse_append,
        List.dropWhile_append_of_pos (by simpa using ht), ← List.rdropWhile,
        List.rdropWhile_eq_self_iff.mpr (by simpa using hlast)]

/-- Stripping text without whitespace of the whitespace after it gives the text. -/
theorem strip_append_spaces {s t : List Char} (hs : ∀ c ∈ s, isSpace c = false)
    (ht : ∀ c ∈ t, isSpace c = true) : strip (s ++ t) = s :=
  dropWhile_rdropWhile_append hs ht

theorem strip_eq_self {s : List Char} (hs : ∀ c ∈ s, isSpace c = false) : strip s = s := by
  simpa using @strip_append_spaces s [] hs (by simp)

/-! ## `split` -/

theorem splitOnP_exists_ne_nil {p : Char → Bool} {ys : List Char} (hy : ∃ y ∈ ys, p y = false) :
    ∃ w ∈ ys.splitOnP p, w ≠ [] := by
  induction ys with
  | nil => simp at hy
  | cons y ys ih =>
      rw [List.splitOnP_cons]
      by_cases hp : p y
      · obtain ⟨z, hz, hpz⟩ := hy
        rcases List.mem_cons.mp hz with rfl | hz
        · simp [hp] at hpz
        · obtain ⟨w, hw, hne⟩ := ih ⟨z, hz, hpz⟩
          exact ⟨w, by simp [hp, hw], hne⟩
      · obtain ⟨w, rest, hsplit⟩ := List.exists_cons_of_ne_nil (List.splitOnP_ne_nil p ys)
        exact ⟨y :: w, by simp [hp, hsplit], List.cons_ne_nil _ _⟩

/-- A string without surrounding whitespace splits into one word or none only
when it holds no whitespace at all. -/
theorem not_space_of_split_length_le_one {a : List Char}
    (hhead : ∀ c ∈ a.head?, isSpace c = false) (hlast : ∀ c ∈ a.getLast?, isSpace c = false)
    (hsplit : (split a).length ≤ 1) : ∀ c ∈ a, isSpace c = false := by
  by_contra hspace
  push_neg at hspace
  obtain ⟨x, hx, hxspace⟩ := hspace
  set word := a.takeWhile (fun c => !isSpace c)
  have hrest : a.dropWhile (fun c => !isSpace c) ≠ [] := by
    rw [Ne, List.dropWhile_eq_nil_iff]
    exact fun hall => hxspace (by simpa using hall x hx)
  obtain ⟨sep, ys, hys⟩ := List.exists_cons_of_ne_nil hrest
  have hsep : isSpace sep = true := by
    simpa [hys] using List.head_dropWhile_not (fun c => !isSpace c) a hrest
  have ha : a = word ++ sep :: ys := by rw [← hys, List.takeWhile_append_dropWhile]
  have hword : ∀ c ∈ word, ¬ isSpace c := fun c hc => by
    simpa using List.mem_takeWhile_imp hc
  have hword_ne : word ≠ [] := by
    intro hnil
    have := hhead sep (by simp [ha, hnil])
    simp [hsep] at this
  have hys_ne : ∃ y ∈ ys, isSpace y = false := by
    cases ys using List.reverseRecOn with
    | nil => simpa [ha, hsep] using hlast sep (by simp [ha])
    | append_singleton ys y _ =>
        exact ⟨y, by simp, hlast y (by
          rw [ha, ← List.cons_append, ← List.append_assoc, List.getLast?_concat]; rfl)⟩
  obtain ⟨w, hw, hwne⟩ := splitOnP_exists_ne_nil hys_ne
  have hmem : w ∈ ((ys.splitOnP isSpace).filter fun word => !word.isEmpty) := by
    simp [hw, List.isEmpty_iff, hwne]
  have hpos := List.length_pos_of_mem hmem
  rw [split, ha, List.splitOnP_first _ _ hword sep hsep,
    List.filter_cons_of_pos (by simpa [List.isEmpty_iff] using hword_ne), List.length_cons] at hsplit
  omega

/-! ## `find` and `in` -/

theorem findIdx?_isSome_iff (sub s : List Char) : (findIdx? sub s).isSome ↔ sub <:+: s := by
  induction s with
  | nil => cases sub <;> simp [findIdx?]
  | cons c s ih =>
      rw [List.infix_cons_iff, ← ih, findIdx?, ← List.isPrefixOf_iff_prefix]
      split <;> simp_all

theorem findIdx?_eq_some {sub s : List Char} {i : Nat} (h : findIdx? sub s = some i) :
    FirstOccurrence s sub i := by
  induction s generalizing i with
  | nil =>
      simp only [findIdx?] at h
      split at h
      · cases h
        exact ⟨List.isPrefixOf_iff_prefix.mp ‹_›, by simp⟩
      · cases h
  | cons c s ih =>
      simp only [findIdx?] at h
      split at h
      · cases h
        exact ⟨List.isPrefixOf_iff_prefix.mp ‹_›, by simp⟩
      · rename_i hnot
        obtain ⟨j, hj, rfl⟩ := Option.map_eq_some'.mp h
        obtain ⟨hpre, hfirst⟩ := ih hj
        refine ⟨by simpa using hpre, fun k hk => ?_⟩
        cases k with
        | zero => exact fun hpre => hnot (List.isPrefixOf_iff_prefix.mpr (by simpa using hpre))
        | succ k => simpa using hfirst k (by omega)

/-- When `sub` occurs in `s`, `s.find(sub)` is the index of its first occurrence. -/
theorem find_of_infix {sub s : List Char} (h : sub <:+: s) :
    ∃ i : Nat, find s sub = i ∧ FirstOccurrence s sub i := by
  obtain ⟨i, hi⟩ := Option.isSome_iff_exists.mp ((findIdx?_isSome_iff sub s).mpr h)
  exact ⟨i, by simp [find, hi], findIdx?_eq_some hi⟩

end ManilaUtils.PyStr
