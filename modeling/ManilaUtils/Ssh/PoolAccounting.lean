import ManilaUtils.Ssh.Pool

/-! # Accounting of the SSH pool

`current_size` counts the clients the pool answers for. Every step keeps it at
least the number of free, handed-out and being-replaced clients (`Accounting`).
Two steps make it strictly larger, and then the pool keeps counting a client
that is gone (`Leaks`): a `get` that pops a closed client and raises, and a
`create()` that raises after `get` closed a dead client.

The capacity test of `get` and its increment of `current_size` sit on either
side of `create()`, where a green thread may be switched out. So with `threads`
threads, `current_size` may exceed `max_size` by up to `threads - 1`, and only a
single thread keeps it within `max_size`. While it does exceed it, eventlet's
`put` drops what it is given, so a release can leave a waiting thread blocked.
-/

namespace ManilaUtils.Ssh

variable {cfg : PoolConfig} {s s' : Sys}

/-! ## What each step can do -/

theorem step_get_cases {active : Bool} (h : step cfg s (.get active) = some s') :
    0 < s.idle ∧
      ((∃ conn rest, s.freeItems = conn :: rest ∧ conn ∈ s.closed ∧
          s' = { s with freeItems := rest }) ∨
        (∃ conn rest, s.freeItems = conn :: rest ∧ conn ∉ s.closed ∧ active = true ∧
          s' = { s with freeItems := rest, handedOut := conn :: s.handedOut }) ∨
        (∃ conn rest, s.freeItems = conn :: rest ∧ conn ∉ s.closed ∧ active = false ∧
          s' = { s with freeItems := rest, closed := s.closed.insert conn, idle := s.idle - 1,
                        replacing := s.replacing + 1 }) ∨
        (s.freeItems = [] ∧ s.currentSize < cfg.maxSize ∧
          s' = { s with idle := s.idle - 1, growing := s.growing + 1 }) ∨
        (s.freeItems = [] ∧ cfg.maxSize ≤ s.currentSize ∧
          s' = { s with idle := s.idle - 1, waiting := s.waiting + 1 })) := by
  simp only [step] at h
  split at h
  next hidle =>
    refine ⟨hidle, ?_⟩
    cases h
    unfold get
    split
    next conn rest hfree =>
      by_cases hclosed : conn ∈ s.closed
      · exact .inl ⟨conn, rest, hfree, hclosed, by simp [hclosed, enterBranch]⟩
      · cases active
        · exact .inr (.inr (.inl ⟨conn, rest, hfree, hclosed, rfl, by simp [hclosed, enterBranch]⟩))
        · exact .inr (.inl ⟨conn, rest, hfree, hclosed, rfl, by simp [hclosed, enterBranch]⟩)
    next hfree =>
      by_cases hlt : s.currentSize < cfg.maxSize
      · exact .inr (.inr (.inr (.inl ⟨hfree, hlt, by simp [hlt, enterBranch]⟩)))
      · exact .inr (.inr (.inr (.inr ⟨hfree, by omega, by simp [hlt, enterBranch]⟩)))
  next => cases h

theorem step_createReturns_cases {grow : Bool} (h : step cfg s (.createReturns grow) = some s') :
    (grow = true ∧ 0 < s.growing ∧
        s' = { s with opened := s.opened + 1, currentSize := s.currentSize + 1,
                      handedOut := s.opened :: s.handedOut, growing := s.growing - 1,
                      idle := s.idle + 1 }) ∨
      (grow = false ∧ 0 < s.replacing ∧
        s' = { s with opened := s.opened + 1, handedOut := s.opened :: s.handedOut,
                      replacing := s.replacing - 1, idle := s.idle + 1 }) := by
  simp only [step] at h
  split at h
  next hpos =>
    cases h
    cases grow
    · exact .inr ⟨rfl, hpos, rfl⟩
    · exact .inl ⟨rfl, hpos, rfl⟩
  next => cases h

theorem step_createRaises_cases {grow : Bool} (h : step cfg s (.createRaises grow) = some s') :
    (grow = true ∧ 0 < s.growing ∧ s' = { s with growing := s.growing - 1, idle := s.idle + 1 }) ∨
      (grow = false ∧ 0 < s.replacing ∧
        s' = { s with replacing := s.replacing - 1, idle := s.idle + 1 }) := by
  simp only [step] at h
  split at h
  next hpos =>
    cases h
    cases grow
    · exact .inr ⟨rfl, hpos, rfl⟩
    · exact .inl ⟨rfl, hpos, rfl⟩
  next => cases h

theorem step_put_cases {item : Nat} (h : step cfg s (.put item) = some s') :
    0 < s.idle ∧ item ∈ s.handedOut ∧
      ((cfg.maxSize < s.currentSize ∧
          s' = { s with currentSize := s.currentSize - 1, handedOut := s.handedOut.erase item }) ∨
        (s.currentSize ≤ cfg.maxSize ∧ 0 < s.waiting ∧
          s' = { s with waiting := s.waiting - 1, idle := s.idle + 1 }) ∨
        (s.currentSize ≤ cfg.maxSize ∧ s.waiting = 0 ∧
          s' = { s with freeItems := if cfg.orderAsStack then item :: s.freeItems
                                     else s.freeItems ++ [item],
                        handedOut := s.handedOut.erase item })) := by
  simp only [step] at h
  split at h
  next hguard =>
    refine ⟨hguard.1, hguard.2, ?_⟩
    unfold put at h
    by_cases hdrop : cfg.maxSize < s.currentSize
    · simp only [hdrop, if_true, Option.some.injEq] at h
      exact .inl ⟨hdrop, h.symm⟩
    · by_cases hwait : 0 < s.waiting
      · simp only [hdrop, hwait, if_true, if_false, Option.some.injEq] at h
        exact .inr (.inl ⟨by omega, hwait, h.symm⟩)
      · cases hstack : cfg.orderAsStack <;>
          simp only [hdrop, hwait, hstack, if_true, if_false, Bool.false_eq_true,
            Option.some.injEq] at h <;>
          exact .inr (.inr ⟨by omega, by omega, by simp [← h, hstack]⟩)
  next => cases h

theorem step_remove_cases {ssh : Nat} (h : step cfg s (.remove ssh) = some s') :
    0 < s.idle ∧ ssh < s.opened ∧
      ((ssh ∈ s.freeItems ∧
          s' = { s with closed := s.closed.insert ssh, freeItems := s.freeItems.erase ssh,
                        currentSize := if s.currentSize > 0 then s.currentSize - 1
                                       else s.currentSize }) ∨
        (ssh ∉ s.freeItems ∧ s' = { s with closed := s.closed.insert ssh })) := by
  simp only [step] at h
  split at h
  next hguard =>
    refine ⟨hguard.1, hguard.2, ?_⟩
    cases h
    unfold remove
    by_cases hfree : ssh ∈ s.freeItems
    · exact .inl ⟨hfree, by simp [hfree]⟩
    · exact .inr ⟨hfree, by simp [hfree]⟩
  next => cases h

/-! ## The accounting invariant -/

/-- The accounting of a pool used by `threads` green threads. -/
structure Accounting (cfg : PoolConfig) (threads : Nat) (s : Sys) : Prop where
  threads_eq : s.idle + s.growing + s.replacing + s.waiting = threads
  counted : s.freeItems.length + s.handedOut.length + s.replacing ≤ s.currentSize
  bounded : s.currentSize + s.growing < cfg.maxSize + threads

theorem Accounting.init {threads : Nat} (hmin : cfg.minSize ≤ cfg.maxSize) (hthreads : 0 < threads) :
    Accounting cfg threads (Sys.init cfg threads) :=
  ⟨by simp [Sys.init], by simp [Sys.init], by simp only [Sys.init]; omega⟩

theorem Accounting.step {threads : Nat} {a : Action} (hinv : Accounting cfg threads s)
    (h : step cfg s a = some s') : Accounting cfg threads s' := by
  obtain ⟨hthreads, hcounted, hbounded⟩ := hinv
  cases a with
  | get active =>
      obtain ⟨hidle, hcases⟩ := step_get_cases h
      rcases hcases with ⟨conn, rest, hfree, -, rfl⟩ | ⟨conn, rest, hfree, -, -, rfl⟩ |
        ⟨conn, rest, hfree, -, -, rfl⟩ | ⟨hfree, hlt, rfl⟩ | ⟨hfree, -, rfl⟩
      all_goals
        have hlen := congrArg List.length hfree
        simp only [List.length_cons, List.length_nil] at hlen
        exact ⟨by dsimp only; omega, by dsimp only; (try simp only [List.length_cons]); omega,
          by dsimp only; omega⟩
  | createReturns grow =>
      obtain ⟨-, hpos, rfl⟩ | ⟨-, hpos, rfl⟩ := step_createReturns_cases h <;>
      exact ⟨by dsimp only; omega, by dsimp only; simp only [List.length_cons]; omega,
        by dsimp only; omega⟩
  | createRaises grow =>
      obtain ⟨-, hpos, rfl⟩ | ⟨-, hpos, rfl⟩ := step_createRaises_cases h <;>
      exact ⟨by dsimp only; omega, by dsimp only; omega, by dsimp only; omega⟩
  | put item =>
      obtain ⟨hidle, hheld, hcases⟩ := step_put_cases h
      have hout := List.length_erase_of_mem hheld
      have hpos := List.length_pos_of_mem hheld
      rcases hcases with ⟨hdrop, rfl⟩ | ⟨-, hwait, rfl⟩ | ⟨-, -, rfl⟩
      · exact ⟨hthreads, by dsimp only; omega, by dsimp only; omega⟩
      · exact ⟨by dsimp only; omega, hcounted, by dsimp only; omega⟩
      · refine ⟨hthreads, ?_, hbounded⟩
        dsimp only
        split <;> simp only [List.length_cons, List.length_append, List.length_nil] <;> omega
  | remove ssh =>
      obtain ⟨hidle, -, ⟨hfree, rfl⟩ | ⟨-, rfl⟩⟩ := step_remove_cases h
      · have hlen := List.length_erase_of_mem hfree
        have hpos := List.length_pos_of_mem hfree
        refine ⟨hthreads, ?_, ?_⟩ <;> dsimp only <;> split <;> omega
      · exact ⟨hthreads, hcounted, hbounded⟩

theorem Accounting.reachable {threads : Nat} (hmin : cfg.minSize ≤ cfg.maxSize)
    (hthreads : 0 < threads) (hs : Reachable cfg threads s) : Accounting cfg threads s := by
  induction hs with
  | init => exact Accounting.init hmin hthreads
  | step _ hstep ih => exact ih.step hstep

/-! ## When the count is exact -/

/-- `current_size` counts exactly the free, handed-out and being-replaced clients. -/
def Exact (s : Sys) : Prop :=
  s.freeItems.length + s.handedOut.length + s.replacing = s.currentSize

/-- The steps after which `current_size` counts a client that is gone: `get`
pops a closed client and raises, or the `create()` replacing a dead client raises. -/
def Leaks (s : Sys) : Action → Prop
  | .get _ => ∃ conn ∈ s.freeItems.head?, conn ∈ s.closed
  | .createRaises grow => grow = false
  | _ => False

theorem Exact.step {a : Action} (hexact : Exact s) (h : step cfg s a = some s')
    (hleak : ¬ Leaks s a) : Exact s' := by
  unfold Exact at hexact ⊢
  cases a with
  | get active =>
      obtain ⟨-, hcases⟩ := step_get_cases h
      rcases hcases with ⟨conn, rest, hfree, hclosed, rfl⟩ | ⟨conn, rest, hfree, -, -, rfl⟩ |
        ⟨conn, rest, hfree, -, -, rfl⟩ | ⟨hfree, -, rfl⟩ | ⟨hfree, -, rfl⟩
      · exact absurd ⟨conn, by simp [hfree], hclosed⟩ hleak
      all_goals
        have hlen := congrArg List.length hfree
        simp only [List.length_cons, List.length_nil] at hlen
        dsimp only
        (try simp only [List.length_cons])
        omega
  | createReturns grow =>
      obtain ⟨-, hpos, rfl⟩ | ⟨-, hpos, rfl⟩ := step_createReturns_cases h <;>
      · dsimp only
        simp only [List.length_cons]
        omega
  | createRaises grow =>
      obtain ⟨-, -, rfl⟩ | ⟨rfl, -, -⟩ := step_createRaises_cases h
      · exact hexact
      · exact absurd rfl hleak
  | put item =>
      obtain ⟨-, hheld, hcases⟩ := step_put_cases h
      have hout := List.length_erase_of_mem hheld
      have hpos := List.length_pos_of_mem hheld
      rcases hcases with ⟨-, rfl⟩ | ⟨-, -, rfl⟩ | ⟨-, -, rfl⟩
      · dsimp only
        omega
      · exact hexact
      · dsimp only
        split <;> simp only [List.length_cons, List.length_append, List.length_nil] <;> omega
  | remove ssh =>
      obtain ⟨-, -, ⟨hfree, rfl⟩ | ⟨-, rfl⟩⟩ := step_remove_cases h
      · have hlen := List.length_erase_of_mem hfree
        have hpos := List.length_pos_of_mem hfree
        dsimp only
        split <;> omega
      · exact hexact

/-! ## One caller at a time -/

/-- With a single green thread the calls never interleave. On a pool built
with `min_size ≤ max_size`, the count never falls below the free and
handed-out sessions nor rises above `max_size`; every step but a leaking one
keeps it exact; and while it is exact and `max_size ≥ 1`, a `get` blocks on the
channel only while some session is handed out. -/
theorem sshPool_sequential_accounting (cfg : PoolConfig) (hmin : cfg.minSize ≤ cfg.maxSize)
    {s : Sys} (hs : Reachable cfg 1 s) :
    (s.freeItems.length + s.handedOut.length + s.replacing ≤ s.currentSize ∧
      s.currentSize + s.growing ≤ cfg.maxSize) ∧
    (∀ a s', step cfg s a = some s' → ¬ Leaks s a → Exact s → Exact s') ∧
    (Exact s → 1 ≤ cfg.maxSize → 0 < s.idle →
      ∀ active, (get cfg.maxSize s active).1 = .blocks → s.handedOut ≠ []) := by
  have hinv := Accounting.reachable hmin (by decide) hs
  refine ⟨⟨hinv.counted, by have := hinv.bounded; omega⟩,
    fun a s' h hleak hexact => hexact.step h hleak, fun hexact hmax hidle active hblocks => ?_⟩
  have hthreads := hinv.threads_eq
  unfold get at hblocks
  split at hblocks
  · split at hblocks <;> [cases hblocks; split at hblocks <;> cases hblocks]
  next hfree =>
    split at hblocks
    · cases hblocks
    next hge =>
      intro hout
      unfold Exact at hexact
      simp only [hfree, hout, List.length_nil] at hexact
      omega

/-- The pooled client of a pool with `min_size` 1 and `max_size` 2 is dead, the
`create()` that replaces it raises, and the next `get` grows the pool: the
bounds hold, while the count keeps the lost client. -/
theorem sshPool_sequential_accounting_dead_session :
    ∃ s, Reachable ⟨1, 2, false⟩ 1 s ∧ s.closed = [0] ∧ s.handedOut = [1] ∧
      s.freeItems.length + s.handedOut.length + s.replacing < s.currentSize ∧
      (s.freeItems.length + s.handedOut.length + s.replacing ≤ s.currentSize ∧
        s.currentSize + s.growing ≤ 2) :=
  let hs := @Reachable.run ⟨1, 2, false⟩ 1 _ _
    [.get false, .createRaises false, .get true, .createReturns true] .init rfl
  ⟨_, hs, rfl, rfl, by decide, (sshPool_sequential_accounting _ (by decide) hs).1⟩

/-- A pool of `max_size` 0 blocks on its first `get`, with nothing handed out. -/
theorem sshPool_get_blocks_with_nothing_handed_out :
    ¬ ∀ (cfg : PoolConfig) (s : Sys), Reachable cfg 1 s → 0 < s.idle →
      s.currentSize = s.freeItems.length + s.handedOut.length ∧ s.currentSize ≤ cfg.maxSize ∧
        ∀ active, (get cfg.maxSize s active).1 = .blocks → s.handedOut ≠ [] := by
  intro h
  exact (h ⟨0, 0, false⟩ _ .init (by decide)).2.2 true rfl rfl

/-! ## Several green threads -/

/-- With `threads` green threads on a pool built with `min_size ≤ max_size`,
`current_size` stays below `max_size + threads`. -/
theorem sshPool_current_size_lt (cfg : PoolConfig) (hmin : cfg.minSize ≤ cfg.maxSize)
    {threads : Nat} (hthreads : 0 < threads) {s : Sys} (hs : Reachable cfg threads s) :
    s.currentSize < cfg.maxSize + threads :=
  Nat.lt_of_le_of_lt (Nat.le_add_right _ _) (Accounting.reachable hmin hthreads hs).bounded

/-- Two green threads both pass the capacity test of `get` on an empty pool of
`max_size` 1 before either `create()` returns: `current_size` reaches 2, the
most two threads allow. -/
theorem sshPool_current_size_lt_race :
    ∃ s, Reachable ⟨0, 1, false⟩ 2 s ∧ 1 < s.currentSize ∧ s.currentSize < 1 + 2 :=
  let hs := @Reachable.run ⟨0, 1, false⟩ 2 _ _
    [.get true, .get true, .createReturns true, .createReturns true] .init rfl
  ⟨_, hs, by decide, sshPool_current_size_lt _ (by decide) (by decide) hs⟩

theorem sshPool_race_overshoots :
    ∃ s, Reachable ⟨0, 1, false⟩ 2 s ∧ 1 < s.currentSize ∧ 1 < s.openSessions :=
  ⟨_, @Reachable.run _ _ _ _ [.get true, .get true, .createReturns true, .createReturns true]
    .init rfl, by decide, by decide⟩

/-- Above `max_size`, eventlet's `put` drops what it is given. -/
theorem step_put_drops {item : Nat} (hover : cfg.maxSize < s.currentSize) (hidle : 0 < s.idle)
    (hheld : item ∈ s.handedOut) :
    step cfg s (.put item) =
      some { s with currentSize := s.currentSize - 1, handedOut := s.handedOut.erase item } := by
  simp [step, put, hover, hidle, hheld]

/-- A thread waits in `channel.get()` only while no client is free and
`current_size` has reached `max_size`. -/
def WaitJustified (cfg : PoolConfig) (s : Sys) : Prop :=
  0 < s.waiting → s.freeItems = [] ∧ cfg.maxSize ≤ s.currentSize

theorem WaitJustified.init (threads : Nat) : WaitJustified cfg (Sys.init cfg threads) :=
  fun hwait => absurd hwait (Nat.lt_irrefl 0)

/-- `get` blocks only on an empty, full pool; `put` frees a client only when no
thread waits and drops one only above `max_size`; `remove` takes a free client
only when none waits. -/
theorem WaitJustified.step {a : Action} (hjust : WaitJustified cfg s)
    (h : step cfg s a = some s') : WaitJustified cfg s' := by
  have hnowait : s.freeItems ≠ [] → s.waiting = 0 := fun hfree =>
    Nat.eq_zero_of_not_pos fun hwait => hfree (hjust hwait).1
  cases a with
  | get active =>
      obtain ⟨-, hcases⟩ := step_get_cases h
      rcases hcases with ⟨conn, rest, hfree, -, rfl⟩ | ⟨conn, rest, hfree, -, -, rfl⟩ |
        ⟨conn, rest, hfree, -, -, rfl⟩ | ⟨-, -, rfl⟩ | ⟨hfree, hfull, rfl⟩
      iterate 3
        exact fun hwait => absurd (hnowait (by simp [hfree])) (Nat.pos_iff_ne_zero.mp hwait)
      · exact hjust
      · exact fun _ => ⟨hfree, hfull⟩
  | createReturns grow =>
      obtain ⟨-, -, rfl⟩ | ⟨-, -, rfl⟩ := step_createReturns_cases h <;>
        exact fun hwait => ⟨(hjust hwait).1, by have := (hjust hwait).2; dsimp only; omega⟩
  | createRaises grow =>
      obtain ⟨-, -, rfl⟩ | ⟨-, -, rfl⟩ := step_createRaises_cases h <;> exact hjust
  | put item =>
      obtain ⟨-, -, hcases⟩ := step_put_cases h
      rcases hcases with ⟨hdrop, rfl⟩ | ⟨-, -, rfl⟩ | ⟨-, hzero, rfl⟩
      · exact fun hwait => ⟨(hjust hwait).1, by dsimp only; omega⟩
      · exact fun hwait => hjust (by dsimp only at hwait; omega)
      · exact fun hwait => absurd hzero (Nat.pos_iff_ne_zero.mp hwait)
  | remove ssh =>
      obtain ⟨-, -, ⟨hfree, rfl⟩ | ⟨-, rfl⟩⟩ := step_remove_cases h
      · exact fun hwait => absurd (hnowait (List.ne_nil_of_mem hfree))
          (Nat.pos_iff_ne_zero.mp hwait)
      · exact hjust

theorem WaitJustified.reachable {threads : Nat} (hs : Reachable cfg threads s) :
    WaitJustified cfg s := by
  induction hs with
  | init => exact WaitJustified.init threads
  | step _ hstep ih => exact ih.step hstep

/-- However the green threads interleave, a thread blocked in `channel.get()`
never waits while a client sits in `free_items`, nor while `current_size` is
below `max_size`, where `get` would create one. -/
theorem sshPool_waiting_justified {threads : Nat} (hs : Reachable cfg threads s)
    (hwait : 0 < s.waiting) : s.freeItems = [] ∧ cfg.maxSize ≤ s.currentSize :=
  WaitJustified.reachable hs hwait

/-- Two threads on a pool of `max_size` 1: the second waits while the first
holds the only client. -/
theorem sshPool_waiting_justified_two :
    ∃ s, Reachable ⟨0, 1, false⟩ 2 s ∧ 0 < s.waiting ∧
      s.freeItems = [] ∧ 1 ≤ s.currentSize :=
  let hs := @Reachable.run ⟨0, 1, false⟩ 2 _ _
    [.get true, .createReturns true, .get true] .init rfl
  ⟨_, hs, by decide, sshPool_waiting_justified hs (by decide)⟩

end ManilaUtils.Ssh
