import ManilaUtils.Ssh.PoolAccounting

/-! # Who holds a client of the SSH pool

A client `create()` returned is either in `free_items`, held by a caller, or
gone. No step puts a client in two places: `get` moves one from the free list
to its caller or drops it, `put` moves one back or hands it to a waiting thread,
`remove` drops one from the free list. So in every reachable state, however the
green threads interleave, no client is free twice, held twice, or free and held
at once. A client that `get` found dead leaves both places for good.
-/

namespace ManilaUtils.Ssh

open List

variable {cfg : PoolConfig} {s s' : Sys}

/-- The clients the pool keeps free and those its callers hold. -/
def Sys.holders (s : Sys) : List Nat := s.freeItems ++ s.handedOut

/-! ## What a step does to the holders -/

/-- Every step keeps `opened` and `closed` growing. It takes holders away or
moves them, except that a returning `create()` adds the next client. -/
theorem step_holders {a : Action} (h : step cfg s a = some s') :
    s.opened ≤ s'.opened ∧ s.closed ⊆ s'.closed ∧
      (s'.holders <+~ s.holders ∨
        (s'.opened = s.opened + 1 ∧ s'.holders ~ s.opened :: s.holders)) := by
  cases a with
  | get active =>
      obtain ⟨-, hcases⟩ := step_get_cases h
      rcases hcases with ⟨conn, rest, hfree, -, rfl⟩ | ⟨conn, rest, hfree, -, -, rfl⟩ |
        ⟨conn, rest, hfree, -, -, rfl⟩ | ⟨-, -, rfl⟩ | ⟨-, -, rfl⟩
      · exact ⟨le_rfl, Subset.refl _,
          .inl (by simpa [Sys.holders, hfree] using (sublist_cons_self conn _).subperm)⟩
      · exact ⟨le_rfl, Subset.refl _,
          .inl (by simpa [Sys.holders, hfree] using perm_middle.subperm)⟩
      · exact ⟨le_rfl, fun c hc => mem_insert_iff.mpr (.inr hc),
          .inl (by simpa [Sys.holders, hfree] using (sublist_cons_self conn _).subperm)⟩
      · exact ⟨le_rfl, Subset.refl _, .inl (Subperm.refl _)⟩
      · exact ⟨le_rfl, Subset.refl _, .inl (Subperm.refl _)⟩
  | createReturns grow =>
      obtain ⟨-, -, rfl⟩ | ⟨-, -, rfl⟩ := step_createReturns_cases h <;>
        exact ⟨Nat.le_succ _, Subset.refl _, .inr ⟨rfl, perm_middle⟩⟩
  | createRaises grow =>
      obtain ⟨-, -, rfl⟩ | ⟨-, -, rfl⟩ := step_createRaises_cases h <;>
        exact ⟨le_rfl, Subset.refl _, .inl (Subperm.refl _)⟩
  | put item =>
      obtain ⟨-, hheld, hcases⟩ := step_put_cases h
      have hback : s.freeItems ++ item :: s.handedOut.erase item ~ s.holders :=
        (perm_cons_erase hheld).symm.append_left s.freeItems
      rcases hcases with ⟨-, rfl⟩ | ⟨-, -, rfl⟩ | ⟨-, -, rfl⟩
      · exact ⟨le_rfl, Subset.refl _, .inl ((erase_sublist item _).append_left _).subperm⟩
      · exact ⟨le_rfl, Subset.refl _, .inl (Subperm.refl _)⟩
      · refine ⟨le_rfl, Subset.refl _, .inl ?_⟩
        split
        · exact (perm_middle.symm.trans hback).subperm
        · simpa [Sys.holders] using hback.subperm
  | remove ssh =>
      obtain ⟨-, -, ⟨-, rfl⟩ | ⟨-, rfl⟩⟩ := step_remove_cases h
      · exact ⟨le_rfl, fun c hc => mem_insert_iff.mpr (.inr hc),
          .inl ((erase_sublist ssh _).append_right _).subperm⟩
      · exact ⟨le_rfl, fun c hc => mem_insert_iff.mpr (.inr hc), .inl (Subperm.refl _)⟩

/-! ## No client in two places -/

/-- The holders are clients `create()` returned, each in one place only. -/
structure Owned (s : Sys) : Prop where
  nodup : s.holders.Nodup
  lt_opened : ∀ c ∈ s.holders, c < s.opened

theorem Owned.init (threads : Nat) : Owned (Sys.init cfg threads) :=
  ⟨by simpa [Sys.holders, Sys.init] using nodup_range cfg.minSize,
    by simp [Sys.holders, Sys.init]⟩

theorem Owned.step {a : Action} (hown : Owned s) (h : step cfg s a = some s') : Owned s' := by
  obtain ⟨hopened, -, ⟨l, hperm, hsub⟩ | ⟨hnext, hperm⟩⟩ := step_holders h
  · exact ⟨(hsub.nodup hown.nodup).perm hperm,
      fun c hc => (hown.lt_opened c (hsub.subset (hperm.symm.subset hc))).trans_le hopened⟩
  · refine ⟨hperm.symm.nodup_iff.mp (nodup_cons.mpr ⟨fun hin => ?_, hown.nodup⟩), fun c hc => ?_⟩
    · exact Nat.lt_irrefl _ (hown.lt_opened _ hin)
    · rcases mem_cons.mp (hperm.subset hc) with rfl | hc
      · omega
      · have := hown.lt_opened c hc
        omega

theorem Owned.reachable {threads : Nat} (hs : Reachable cfg threads s) : Owned s := by
  induction hs with
  | init => exact Owned.init threads
  | step _ hstep ih => exact ih.step hstep

/-- However `threads` green threads interleave `get`, `put` and `remove`, no
client is twice in `free_items`, none is handed out twice, and none is free and
handed out at once; every one of them is a client `create()` returned. -/
theorem sshPool_holders_nodup {threads : Nat} (hs : Reachable cfg threads s) :
    (s.freeItems ++ s.handedOut).Nodup ∧ ∀ c ∈ s.freeItems ++ s.handedOut, c < s.opened :=
  ⟨(Owned.reachable hs).nodup, (Owned.reachable hs).lt_opened⟩

/-- Three threads on a pool of `max_size` 2: two sessions made, one put back,
one taken again. -/
theorem sshPool_holders_nodup_three :
    ∃ s, Reachable ⟨0, 2, false⟩ 3 s ∧ (s.freeItems ++ s.handedOut).Nodup ∧
      ∀ c ∈ s.freeItems ++ s.handedOut, c < s.opened :=
  let hs := @Reachable.run ⟨0, 2, false⟩ 3 _ _
    [.get true, .get true, .createReturns true, .createReturns true, .put 0, .get true] .init rfl
  ⟨_, hs, sshPool_holders_nodup hs⟩

/-! ## A dead client stays out -/

/-- `c` is closed and neither free nor held. -/
structure Retired (c : Nat) (s : Sys) : Prop where
  closed : c ∈ s.closed
  lt_opened : c < s.opened
  not_holder : c ∉ s.holders

theorem Retired.step {c : Nat} {a : Action} (hret : Retired c s) (h : step cfg s a = some s') :
    Retired c s' := by
  obtain ⟨hopened, hclosed, hcases⟩ := step_holders h
  refine ⟨hclosed hret.closed, hret.lt_opened.trans_le hopened, fun hc => ?_⟩
  rcases hcases with hsub | ⟨-, hperm⟩
  · exact hret.not_holder (hsub.subset hc)
  · rcases mem_cons.mp (hperm.subset hc) with rfl | hc
    · exact Nat.lt_irrefl _ hret.lt_opened
    · exact hret.not_holder hc

/-- What every step keeps, every run keeps. -/
theorem run_preserves {P : Sys → Prop} (hstep : ∀ {t t' a}, P t → step cfg t a = some t' → P t')
    {actions : List Action} (hs : P s) (hrun : run cfg s actions = some s') : P s' := by
  induction actions generalizing s with
  | nil =>
      simp only [run, Option.some.injEq] at hrun
      exact hrun ▸ hs
  | cons a rest ih =>
      simp only [run, Option.bind_eq_some] at hrun
      obtain ⟨mid, hmid, hrest⟩ := hrun
      exact ih (hstep hs hmid) hrest

theorem Retired.run {c : Nat} {actions : List Action} (hret : Retired c s)
    (hrun : run cfg s actions = some s') : Retired c s' :=
  run_preserves (fun h hstep => h.step hstep) hret hrun

/-- A client that `get` pops and finds inactive is closed, either just now or
before, and in every continuation of the run it stays closed and is never in
`free_items` or handed out again. -/
theorem sshPool_dead_session_retired {threads : Nat} {s'' : Sys} {conn : Nat} {rest : List Nat}
    {actions : List Action} (hs : Reachable cfg threads s) (hfree : s.freeItems = conn :: rest)
    (hget : step cfg s (.get false) = some s') (hrun : run cfg s' actions = some s'') :
    conn ∈ s''.closed ∧ conn ∉ s''.freeItems ∧ conn ∉ s''.handedOut := by
  have hown := Owned.reachable hs
  have hnd : (conn :: (rest ++ s.handedOut)).Nodup := by simpa [Sys.holders, hfree] using hown.nodup
  have hlt : conn < s.opened := hown.lt_opened conn (by simp [Sys.holders, hfree])
  obtain ⟨-, hcases⟩ := step_get_cases hget
  have hret : Retired conn s' := by
    rcases hcases with ⟨c, r, hfree', hclosed, rfl⟩ | ⟨-, -, -, -, hactive, -⟩ |
      ⟨c, r, hfree', -, -, rfl⟩ | ⟨hnil, -⟩ | ⟨hnil, -⟩
    · obtain ⟨rfl, rfl⟩ := cons.inj (hfree'.symm.trans hfree)
      exact ⟨hclosed, hlt, by simpa [Sys.holders] using (nodup_cons.mp hnd).1⟩
    · cases hactive
    · obtain ⟨rfl, rfl⟩ := cons.inj (hfree'.symm.trans hfree)
      exact ⟨mem_insert_self _ _, hlt, by simpa [Sys.holders] using (nodup_cons.mp hnd).1⟩
    all_goals simp [hfree] at hnil
  obtain ⟨hclosed, -, hnot⟩ := hret.run hrun
  exact ⟨hclosed, fun hc => hnot (mem_append_left _ hc), fun hc => hnot (mem_append_right _ hc)⟩

/-- One thread, a pool of one client: the client is found dead and replaced,
the replacement is put back and taken again. -/
theorem sshPool_dead_session_retired_replace :
    ∃ s' s'', step ⟨1, 1, false⟩ (Sys.init ⟨1, 1, false⟩ 1) (.get false) =
        some s' ∧
      run ⟨1, 1, false⟩ s' [.createReturns false, .put 1, .get true] = some s'' ∧
      0 ∈ s''.closed ∧ 0 ∉ s''.freeItems ∧ 0 ∉ s''.handedOut :=
  ⟨_, _, rfl, rfl, @sshPool_dead_session_retired ⟨1, 1, false⟩ _ _ 1 _ 0 []
    [.createReturns false, .put 1, .get true] .init rfl rfl rfl⟩

end ManilaUtils.Ssh
