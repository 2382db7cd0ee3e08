import StudStuff.Lib.Counting
import StudStuff.Lib.Transitions

/-!
# The thread pool

The threads of `thread_pool.cc` as a transition system: any number of workers and one controller,
which calls `Enqueue` and `Shutdown`. Tasks may call `Enqueue` as well while they run. A section
protected by the mutex is one step, except that a worker whose wait has returned holds the mutex
until it has decided what to do.

The wait of a worker returns only when the queue is not empty or a stop was requested; otherwise the
worker goes to sleep, and may wake up at any time. `Enqueue` reads the stop flag, pushes its task
and notifies one sleeping worker, in three steps: the lock of `Monitor` notifies after it has
released the mutex. `issued`, `pushed`, `taken`, `accepted` and `completed` are a history of the
tasks and no part of the pool.
-/

set_option autoImplicit false
set_option relaxedAutoImplicit false

namespace StudStuff.ThreadPool

open Lib

/-! ### States -/

/-- What a worker does. `acquiring` waits for the mutex, `locked` holds it after the wait has
returned, and `crashed` took the front of an empty queue. -/
inductive Worker
  | acquiring
  | waiting
  | locked
  | running (task : ℕ)
  | exited
  | crashed
  deriving DecidableEq, Repr

/-- How far a call of `Enqueue` is. -/
inductive Call
  | idle
  | checked (task : ℕ)
  | pushed (task : ℕ)
  deriving DecidableEq, Repr

/-- A thread that calls `Enqueue`. -/
inductive Thread (W : ℕ)
  | controller
  | worker (index : Fin W)
  deriving DecidableEq, Repr

/-- The state of a pool with `W` workers, and the history of its tasks. -/
structure State (W : ℕ) where
  workers : Fin W → Worker
  calls : Thread W → Call
  queue : List ℕ
  stop : Bool
  /-- The controller is in `JoinAllThreads`. -/
  joining : Bool
  /-- `Shutdown` has returned. -/
  returned : Bool
  issued : ℕ
  pushed : List ℕ
  taken : List ℕ
  accepted : List ℕ
  completed : List ℕ

variable {W : ℕ}

/-- The pool that the constructor makes. -/
def State.start (W : ℕ) : State W where
  workers _ := .acquiring
  calls _ := .idle
  queue := []
  stop := false
  joining := false
  returned := false
  issued := 0
  pushed := []
  taken := []
  accepted := []
  completed := []

/-- No worker holds the mutex. -/
def State.Unlocked (s : State W) : Prop := ∀ w, s.workers w ≠ .locked

instance (s : State W) : Decidable s.Unlocked :=
  inferInstanceAs (Decidable (∀ w, s.workers w ≠ .locked))

/-- A thread is able to call `Enqueue`: the controller when it is not joining, and a worker while it
runs a task. -/
def State.Able (s : State W) : Thread W → Prop
  | .controller => s.joining = false
  | .worker w => ∃ task, s.workers w = .running task

/-- The number of workers that run a task. -/
def State.runners (s : State W) (task : ℕ) : ℕ := countWhere (· = .running task) s.workers

/-! ### Changes of a state -/

/-- A worker goes on. -/
def State.setWorker (s : State W) (w : Fin W) (worker : Worker) : State W :=
  { s with workers := Function.update s.workers w worker }

/-- A call goes on. -/
def State.setCall (s : State W) (thread : Thread W) (call : Call) : State W :=
  { s with calls := Function.update s.calls thread call }

theorem workers_setWorker (s : State W) (w other : Fin W) (worker : Worker) :
    (s.setWorker w worker).workers other = if other = w then worker else s.workers other :=
  Function.update_apply ..

theorem calls_setCall (s : State W) (thread other : Thread W) (call : Call) :
    (s.setCall thread call).calls other = if other = thread then call else s.calls other :=
  Function.update_apply ..

theorem workers_setWorker_self (s : State W) (w : Fin W) (worker : Worker) :
    (s.setWorker w worker).workers w = worker := by
  rw [workers_setWorker, if_pos rfl]

theorem calls_setCall_self (s : State W) (thread : Thread W) (call : Call) :
    (s.setCall thread call).calls thread = call := by
  rw [calls_setCall, if_pos rfl]

/-- `Enqueue` has read the stop flag and made its task. -/
def State.checked (s : State W) (thread : Thread W) : State W :=
  { s.setCall thread (.checked s.issued) with issued := s.issued + 1 }

/-- `Enqueue` pushes its task. -/
def State.push (s : State W) (thread : Thread W) (task : ℕ) : State W :=
  { s.setCall thread (.pushed task) with
    queue := s.queue ++ [task]
    pushed := s.pushed ++ [task] }

/-- `Enqueue` returns. -/
def State.accept (s : State W) (thread : Thread W) (task : ℕ) : State W :=
  { s.setCall thread .idle with accepted := s.accepted ++ [task] }

/-- `request_stop`, which wakes up every worker that sleeps. -/
def State.requestStop (s : State W) : State W :=
  { s with
    stop := true
    joining := true
    workers := fun w ↦ if s.workers w = .waiting then .acquiring else s.workers w }

/-- A worker takes the front of the queue. -/
def State.take (s : State W) (w : Fin W) (task : ℕ) (rest : List ℕ) : State W :=
  { s.setWorker w (.running task) with
    queue := rest
    taken := s.taken ++ [task] }

/-- A worker has run its task. -/
def State.complete (s : State W) (w : Fin W) (task : ℕ) : State W :=
  { s.setWorker w .acquiring with completed := s.completed ++ [task] }

/-! ### Steps -/

/-- One step of one thread. -/
inductive Step : State W → State W → Prop
  /-- `Enqueue` throws. -/
  | reject {s : State W} (thread : Thread W) (hable : s.Able thread)
      (hcall : s.calls thread = .idle) (hstop : s.stop = true) : Step s s
  /-- `Enqueue` passes the check of the stop flag. -/
  | check {s : State W} (thread : Thread W) (hable : s.Able thread)
      (hcall : s.calls thread = .idle) (hstop : s.stop = false) : Step s (s.checked thread)
  /-- `Enqueue` pushes its task, with the mutex held. -/
  | push {s : State W} (thread : Thread W) (task : ℕ) (hcall : s.calls thread = .checked task)
      (hunlocked : s.Unlocked) : Step s (s.push thread task)
  /-- `notify_one` finds no worker asleep, and `Enqueue` returns. -/
  | notifyNone {s : State W} (thread : Thread W) (task : ℕ) (hcall : s.calls thread = .pushed task)
      (hnone : ∀ w, s.workers w ≠ .waiting) : Step s (s.accept thread task)
  /-- `notify_one` wakes up a worker, and `Enqueue` returns. -/
  | notifyOne {s : State W} (thread : Thread W) (task : ℕ) (w : Fin W)
      (hcall : s.calls thread = .pushed task) (hwaiting : s.workers w = .waiting) :
      Step s ((s.setWorker w .acquiring).accept thread task)
  /-- `Shutdown` requests the stop. -/
  | requestStop {s : State W} (hjoining : s.joining = false)
      (hcall : s.calls .controller = .idle) : Step s s.requestStop
  /-- `Shutdown` returns after it has joined all threads. -/
  | join {s : State W} (hjoining : s.joining = true) (hexited : ∀ w, s.workers w = .exited) :
      Step s { s with joining := false, returned := true }
  /-- A spurious wake-up. -/
  | wake {s : State W} (w : Fin W) (hwaiting : s.workers w = .waiting) :
      Step s (s.setWorker w .acquiring)
  /-- A worker acquires the mutex and finds nothing to do. -/
  | sleep {s : State W} (w : Fin W) (hworker : s.workers w = .acquiring) (hunlocked : s.Unlocked)
      (hstop : s.stop = false) (hempty : s.queue = []) : Step s (s.setWorker w .waiting)
  /-- A worker acquires the mutex and its wait returns. -/
  | lock {s : State W} (w : Fin W) (hworker : s.workers w = .acquiring) (hunlocked : s.Unlocked)
      (hready : s.queue ≠ [] ∨ s.stop = true) : Step s (s.setWorker w .locked)
  /-- A worker returns, as a stop was requested and the queue is empty. -/
  | exit {s : State W} (w : Fin W) (hworker : s.workers w = .locked) (hstop : s.stop = true)
      (hempty : s.queue = []) : Step s (s.setWorker w .exited)
  /-- A worker takes a task, releases the mutex and begins to run the task. -/
  | take {s : State W} (w : Fin W) (task : ℕ) (rest : List ℕ) (hworker : s.workers w = .locked)
      (hqueue : s.queue = task :: rest) : Step s (s.take w task rest)
  /-- A worker takes the front of an empty queue. -/
  | crash {s : State W} (w : Fin W) (hworker : s.workers w = .locked) (hstop : s.stop = false)
      (hempty : s.queue = []) : Step s (s.setWorker w .crashed)
  /-- A task ends. -/
  | complete {s : State W} (w : Fin W) (task : ℕ) (hworker : s.workers w = .running task)
      (hcall : s.calls (.worker w) = .idle) : Step s (s.complete w task)

/-- The states that the threads reach in any interleaving. -/
def Reachable (s : State W) : Prop := Relation.ReflTransGen Step (.start W) s

end StudStuff.ThreadPool
