import ManilaUtils.Ssh.PoolOwnership

/-! # In what order the SSH pool reuses clients

`SSHPool.get` takes the client at the front of `free_items` (`popleft`).
eventlet's `put` adds a client it keeps at the back, or at the front when the
pool was built with `order_as_stack=True`; the default is `False`. So by default
clients are reused in the order they were put back, oldest first.

`SSHPool.remove` closes a client, but takes it out of the count only when it
is free. A client its caller still holds keeps its place in `current_size`, and
once put back it sits in `free_items` closed: the `get` that reaches it raises.
-/

namespace ManilaUtils.Ssh

variable {cfg : PoolConfig} {s s' : Sys}

theorem run_append (s : Sys) (first second : List Action) :
    run cfg s (first ++ second) = (run cfg s first).bind (run cfg · second) := by
  induction first generalizing s with
  | nil => rfl
  | cons a rest ih =>
      simp only [List.cons_append, run]
      cases step cfg s a <;> simp [ih]

/-! ## Putting back and taking out in a row -/

/-- A `put` with no thread waiting and `current_size ≤ max_size` keeps the client. -/
theorem step_put_frees {x : Nat} (hidle : 0 < s.idle) (hheld : x ∈ s.handedOut)
    (hsize : s.currentSize ≤ cfg.maxSize) (hwait : s.waiting = 0) :
    step cfg s (.put x) = some { s with
      freeItems := if cfg.orderAsStack then x :: s.freeItems else s.freeItems ++ [x],
      handedOut := s.handedOut.erase x } := by
  have hdrop : ¬ cfg.maxSize < s.currentSize := by omega
  cases hstack : cfg.orderAsStack <;> simp [step, put, hidle, hheld, hdrop, hwait, hstack]

/-- A `get` finding an open client at the front of `free_items`, with its
transport active, hands it out. -/
theorem step_get_returns {c : Nat} {rest : List Nat} (hidle : 0 < s.idle)
    (hfree : s.freeItems = c :: rest) (hopen : c ∉ s.closed) :
    step cfg s (.get true) = some { s with freeItems := rest, handedOut := c :: s.handedOut } := by
  simp [step, get, hidle, hfree, hopen, enterBranch]

/-- Putting back distinct held clients one after another, with no thread
waiting, adds them at the back of `free_items`, or at the front in reverse for
`order_as_stack`. -/
theorem run_puts {xs : List Nat} (hidle : 0 < s.idle) (hwait : s.waiting = 0)
    (hsize : s.currentSize ≤ cfg.maxSize) (hnodup : xs.Nodup) (hheld : ∀ x ∈ xs, x ∈ s.handedOut) :
    ∃ s', run cfg s (xs.map .put) = some s' ∧
      s'.freeItems = (if cfg.orderAsStack then xs.reverse ++ s.freeItems else s.freeItems ++ xs) ∧
      s'.idle = s.idle ∧ s'.closed = s.closed := by
  induction xs generalizing s with
  | nil => exact ⟨s, rfl, by simp, rfl, rfl⟩
  | cons x xs ih =>
      obtain ⟨hx, hxs⟩ := List.nodup_cons.mp hnodup
      obtain ⟨s', hrun, hfree, hidle', hclosed⟩ := ih (s := { s with
        freeItems := if cfg.orderAsStack then x :: s.freeItems else s.freeItems ++ [x],
        handedOut := s.handedOut.erase x }) hidle hwait hsize hxs fun y hy =>
          (List.mem_erase_of_ne fun (hyx : y = x) => hx (hyx ▸ hy)).mpr
            (hheld y (List.mem_cons_of_mem x hy))
      refine ⟨s', ?_, ?_, hidle', hclosed⟩
      · simp only [List.map_cons, run, step_put_frees hidle (hheld x (List.mem_cons_self x xs)) hsize
          hwait, Option.some_bind, hrun]
      · rw [hfree]
        split <;> simp

/-- `get` called once per free client, every one open and active, hands them
out front first. -/
theorem run_gets (hidle : 0 < s.idle) (hopen : ∀ c ∈ s.freeItems, c ∉ s.closed) :
    ∃ s', run cfg s (List.replicate s.freeItems.length (.get true)) = some s' ∧
      s'.freeItems = [] ∧ s'.handedOut = s.freeItems.reverse ++ s.handedOut := by
  generalize hfree : s.freeItems = free at hopen
  induction free generalizing s with
  | nil => exact ⟨s, by simp [run], hfree, by simp⟩
  | cons c rest ih =>
      obtain ⟨s', hrun, hnil, hout⟩ := ih (s := { s with
        freeItems := rest, handedOut := c :: s.handedOut }) hidle rfl
        fun d hd => hopen d (List.mem_cons_of_mem c hd)
      refine ⟨s', ?_, hnil, by simp [hout]⟩
      simp only [List.length_cons, List.replicate_succ, run,
        step_get_returns hidle hfree (hopen c (List.mem_cons_self c rest)), Option.some_bind, hrun]

/-- Put back distinct clients `xs` a caller holds, with no thread waiting and
`current_size ≤ max_size`, and then call `get` once for each free client, every
one open and active. The clients are handed out with the old free ones first
and then `xs` in the order they were put back (by default), or `xs` newest
first and then the old free ones (`order_as_stack=True`). -/
theorem sshPool_reuse_order {xs : List Nat} (hidle : 0 < s.idle) (hwait : s.waiting = 0)
    (hsize : s.currentSize ≤ cfg.maxSize) (hnodup : xs.Nodup) (hheld : ∀ x ∈ xs, x ∈ s.handedOut)
    (hopen : ∀ c ∈ s.freeItems ++ xs, c ∉ s.closed) :
    ∃ s', run cfg s (xs.map .put ++ List.replicate (s.freeItems ++ xs).length (.get true)) =
        some s' ∧ s'.freeItems = [] ∧
      ∃ rest, s'.handedOut =
        (if cfg.orderAsStack then xs.reverse ++ s.freeItems else s.freeItems ++ xs).reverse ++ rest := by
  obtain ⟨s₁, hputs, hfree, hidle₁, hclosed⟩ := run_puts hidle hwait hsize hnodup hheld
  have hlen : (s.freeItems ++ xs).length = s₁.freeItems.length := by
    rw [hfree]
    split <;> simp [Nat.add_comm]
  have hopen₁ : ∀ c ∈ s₁.freeItems, c ∉ s₁.closed := by
    rw [hfree, hclosed]
    intro c hc
    refine hopen c ?_
    split at hc <;> simp_all [or_comm]
  obtain ⟨s', hgets, hnil, hout⟩ := run_gets (hidle₁ ▸ hidle) hopen₁
  exact ⟨s', by rw [run_append, hputs, Option.some_bind, hlen, hgets], hnil, s₁.handedOut,
    by rw [hout, hfree]⟩

/-- By default two clients put back in the order `0`, `1` are handed out `0` first. -/
theorem sshPool_reuse_order_fifo :
    ∃ s', run ⟨0, 2, false⟩ ⟨[], 2, 2, [], [1, 0], 1, 0, 0, 0⟩
        ([0, 1].map .put ++ List.replicate ([] ++ [0, 1]).length (.get true)) = some s' ∧
      s'.freeItems = [] ∧ ∃ rest, s'.handedOut = [1, 0] ++ rest :=
  sshPool_reuse_order (by decide) rfl (by decide) (by decide) (by decide) (by decide)

/-- With `order_as_stack=True` the same two clients come back `1` first. -/
example : (run ⟨0, 2, true⟩ ⟨[], 2, 2, [], [1, 0], 1, 0, 0, 0⟩
    [.put 0, .put 1, .get true]).map Sys.handedOut = some [1] := rfl

/-! ## Removing a client its caller holds -/

/-- A closed client stays closed along every run. -/
theorem run_closed {actions : List Action} (hrun : run cfg s actions = some s') :
    s.closed ⊆ s'.closed :=
  run_preserves (P := fun t => s.closed ⊆ t.closed)
    (fun hsub hstep _ hc => (step_holders hstep).2.1 (hsub hc)) (List.Subset.refl _) hrun

/-- `remove` on a client a caller holds closes it and leaves `current_size` as it
was. In every continuation of the run the client stays closed, so once it is
back at the front of `free_items`, `get` pops it and raises, still counting it. -/
theorem sshPool_remove_held {threads x : Nat} (hs : Reachable cfg threads s)
    (hheld : x ∈ s.handedOut) (hidle : 0 < s.idle) :
    ∃ s₁, step cfg s (.remove x) = some s₁ ∧ s₁.currentSize = s.currentSize ∧ x ∈ s₁.handedOut ∧
      ∀ (actions : List Action) (s₂ : Sys), run cfg s₁ actions = some s₂ →
        ∀ rest active, s₂.freeItems = x :: rest →
          get cfg.maxSize s₂ active = (.raises, { s₂ with freeItems := rest }) := by
  have hnotfree : x ∉ s.freeItems := fun hfree =>
    (List.pairwise_append.mp (Owned.reachable hs).nodup).2.2 x hfree x hheld rfl
  have hlt : x < s.opened := (Owned.reachable hs).lt_opened x (List.mem_append_right _ hheld)
  have hstep : step cfg s (.remove x) = some { s with closed := s.closed.insert x } := by
    simp [step, remove, hidle, hlt, hnotfree]
  refine ⟨_, hstep, rfl, hheld, fun actions s₂ hrun rest active hfree => ?_⟩
  simp [get, hfree, run_closed hrun (List.mem_insert_self x s.closed)]

/-- One thread on a pool of `max_size` 1 takes a client and removes it. -/
theorem sshPool_remove_held_one :
    ∃ s, Reachable ⟨0, 1, false⟩ 1 s ∧
      ∃ s₁, step ⟨0, 1, false⟩ s (.remove 0) = some s₁ ∧ s₁.currentSize = s.currentSize ∧
        0 ∈ s₁.handedOut ∧
        ∀ (actions : List Action) (s₂ : Sys), run ⟨0, 1, false⟩ s₁ actions = some s₂ →
          ∀ rest active, s₂.freeItems = 0 :: rest →
            get 1 s₂ active = (.raises, { s₂ with freeItems := rest }) :=
  let hs := @Reachable.run ⟨0, 1, false⟩ 1 _ _ [.get true, .createReturns true] .init rfl
  ⟨_, hs, sshPool_remove_held hs (by decide) (by decide)⟩

end ManilaUtils.Ssh
