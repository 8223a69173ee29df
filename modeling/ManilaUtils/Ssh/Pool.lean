import Mathlib.Data.List.Basic

/-! # The SSH connection pool

`SSHPool` extends eventlet's `pools.Pool`. The pool keeps `free_items` and the
counter `current_size`. `SSHPool` overrides `get`, which probes a pooled client
with `is_active()` and replaces a dead one, and adds `remove`. It inherits `put`
and `__init__` from eventlet.

Green threads switch only where a call blocks. Inside `get` that is in
`create()`, which connects over the network, and in `self.channel.get()`. A
state records how many threads stand at each of these points. The threads are
interchangeable, so the pool sees nothing else of them. Clients are numbered in
the order `create()` returned them.
-/

namespace ManilaUtils.Ssh

/-- The arguments an `SSHPool` was built with. eventlet's `Pool.__init__`
stores them as given: nothing relates `min_size` to `max_size`. -/
structure PoolConfig where
  minSize : Nat
  maxSize : Nat
  orderAsStack : Bool
  deriving DecidableEq, Repr

/-- A pool, the clients it made, and the green threads that use it. -/
structure Sys where
  freeItems : List Nat
  currentSize : Nat
  /-- the clients `create()` returned are `0, …, opened - 1` -/
  opened : Nat
  /-- the clients `close()` was called on -/
  closed : List Nat
  /-- the sessions `get` handed out that were not put back -/
  handedOut : List Nat
  /-- threads outside every pool call -/
  idle : Nat
  /-- threads in `create()`, called by the capacity branch of `get` -/
  growing : Nat
  /-- threads in `create()`, called after `get` closed a dead pooled client -/
  replacing : Nat
  /-- threads blocked in `self.channel.get()` -/
  waiting : Nat
  deriving DecidableEq, Repr

/-- eventlet's `__init__`: `min_size` clients are created into `free_items`, and
`threads` green threads are about to use the pool. -/
def Sys.init (cfg : PoolConfig) (threads : Nat) : Sys where
  freeItems := List.range cfg.minSize
  currentSize := cfg.minSize
  opened := cfg.minSize
  closed := []
  handedOut := []
  idle := threads
  growing := 0
  replacing := 0
  waiting := 0

/-- The number of threads inside `create()` on the branch `grow`. -/
def Sys.creating (s : Sys) (grow : Bool) : Nat := if grow then s.growing else s.replacing

/-- The clients `create()` returned that were never closed. -/
def Sys.openSessions (s : Sys) : Nat := ((List.range s.opened).filter (· ∉ s.closed)).length

/-- Where a call of `SSHPool.get` goes. -/
inductive GetBranch
  /-- a pooled client whose transport is active is returned -/
  | returns (conn : Nat)
  /-- the pooled client was closed, so `conn.get_transport()` is `None` and
  `.is_active()` raises `AttributeError` -/
  | raises
  /-- `self.create()` is called; with `grow`, `current_size` is incremented once it returns -/
  | creates (grow : Bool)
  /-- `self.channel.get()` -/
  | blocks
  deriving DecidableEq, Repr

/-- `SSHPool.get` up to its call of `create()`. `active` is what `is_active()`
reports when a pooled client is probed. -/
def get (maxSize : Nat) (s : Sys) (active : Bool) : GetBranch × Sys :=
  match s.freeItems with
  | conn :: rest =>
      if conn ∈ s.closed then (.raises, { s with freeItems := rest })
      else if active then (.returns conn, { s with freeItems := rest })
      else (.creates false, { s with freeItems := rest, closed := s.closed.insert conn })
  | [] => if s.currentSize < maxSize then (.creates true, s) else (.blocks, s)

/-- The rest of `get` once `create()` returned the client numbered `s.opened`:
the capacity branch runs `self.current_size += 1`. -/
def createReturned (grow : Bool) (s : Sys) : Sys :=
  { s with opened := s.opened + 1,
           currentSize := if grow then s.currentSize + 1 else s.currentSize }

/-- Where eventlet's `Pool.put` sends an item. -/
inductive PutBranch
  /-- `current_size > max_size`: the item is dropped, without being closed -/
  | drops
  /-- a thread waits in `channel.get()` and receives the item -/
  | handsOver
  /-- the item goes back to `free_items` -/
  | frees
  deriving DecidableEq, Repr

/-- eventlet's `Pool.put(item)`, which `SSHPool` inherits. -/
def put (cfg : PoolConfig) (s : Sys) (item : Nat) : PutBranch × Sys :=
  if cfg.maxSize < s.currentSize then (.drops, { s with currentSize := s.currentSize - 1 })
  else if 0 < s.waiting then (.handsOver, { s with waiting := s.waiting - 1, idle := s.idle + 1 })
  else if cfg.orderAsStack then (.frees, { s with freeItems := item :: s.freeItems })
  else (.frees, { s with freeItems := s.freeItems ++ [item] })

/-- `SSHPool.remove(ssh)`. -/
def remove (s : Sys) (ssh : Nat) : Sys :=
  if ssh ∈ s.freeItems then
    { s with closed := s.closed.insert ssh, freeItems := s.freeItems.erase ssh,
             currentSize := if s.currentSize > 0 then s.currentSize - 1 else s.currentSize }
  else { s with closed := s.closed.insert ssh }

/-- What one green thread, or the network under `create()`, does next. -/
inductive Action
  /-- an idle thread calls `get` -/
  | get (active : Bool)
  /-- `create()` returns a connected client to a thread on the branch `grow` -/
  | createReturns (grow : Bool)
  /-- `create()` raises `SSHException` on the branch `grow` -/
  | createRaises (grow : Bool)
  /-- an idle thread puts back a session it holds -/
  | put (item : Nat)
  /-- an idle thread calls `remove` on a client of the pool -/
  | remove (ssh : Nat)
  deriving DecidableEq, Repr

/-- Where the calling thread goes after `get` took `branch`. -/
def enterBranch : GetBranch → Sys → Sys
  | .returns conn, s => { s with handedOut := conn :: s.handedOut }
  | .raises, s => s
  | .creates true, s => { s with idle := s.idle - 1, growing := s.growing + 1 }
  | .creates false, s => { s with idle := s.idle - 1, replacing := s.replacing + 1 }
  | .blocks, s => { s with idle := s.idle - 1, waiting := s.waiting + 1 }

/-- A thread leaves `create()` on the branch `grow`. -/
def leaveCreate (grow : Bool) (s : Sys) : Sys :=
  if grow then { s with growing := s.growing - 1, idle := s.idle + 1 }
  else { s with replacing := s.replacing - 1, idle := s.idle + 1 }

/-- One step of the system, `none` when no thread can take it. -/
def step (cfg : PoolConfig) (s : Sys) : Action → Option Sys
  | .get active =>
      if 0 < s.idle then some (enterBranch (get cfg.maxSize s active).1 (get cfg.maxSize s active).2)
      else none
  | .createReturns grow =>
      if 0 < s.creating grow then
        some (leaveCreate grow { createReturned grow s with handedOut := s.opened :: s.handedOut })
      else none
  | .createRaises grow => if 0 < s.creating grow then some (leaveCreate grow s) else none
  | .put item =>
      if 0 < s.idle ∧ item ∈ s.handedOut then
        match put cfg s item with
        | (.handsOver, s') => some s'
        | (_, s') => some { s' with handedOut := s'.handedOut.erase item }
      else none
  | .remove ssh => if 0 < s.idle ∧ ssh < s.opened then some (remove s ssh) else none

/-- The states a pool with `threads` green threads can reach. -/
inductive Reachable (cfg : PoolConfig) (threads : Nat) : Sys → Prop
  | init : Reachable cfg threads (Sys.init cfg threads)
  | step {s s' : Sys} {a : Action} : Reachable cfg threads s → step cfg s a = some s' →
      Reachable cfg threads s'

/-- Run a list of actions in order. -/
def run (cfg : PoolConfig) : Sys → List Action → Option Sys
  | s, [] => some s
  | s, a :: rest => (step cfg s a).bind (run cfg · rest)

theorem Reachable.run {cfg : PoolConfig} {threads : Nat} {s s' : Sys} {actions : List Action}
    (hs : Reachable cfg threads s) (hrun : run cfg s actions = some s') :
    Reachable cfg threads s' := by
  induction actions generalizing s with
  | nil =>
      simp only [ManilaUtils.Ssh.run, Option.some.injEq] at hrun
      exact hrun ▸ hs
  | cons a rest ih =>
      simp only [ManilaUtils.Ssh.run, Option.bind_eq_some] at hrun
      obtain ⟨mid, hmid, hrest⟩ := hrun
      exact ih (hs.step hmid) hrest

end ManilaUtils.Ssh
