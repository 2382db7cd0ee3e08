import Mathlib.Data.Fintype.Option
import StudStuff.ThreadPool.Wakeup

/-!
# `Shutdown` returns

`State.work` is a bound on what is left to do: a task that waits still has to be taken and run, a
call of `Enqueue` that has passed its check still pushes a task, and a worker still has to come
round to the queue. A thread that goes on makes it smaller (`work_lt`). Only spurious wake-ups and
new calls of `Enqueue` add to it, and once a stop was requested there are none.

As long as `Shutdown` has not returned some thread can go on (`exists_winds`). However the threads
interleave, `Shutdown` therefore returns, and then every task that was pushed has been completed
once (`shutdown_returns`).
-/

set_option autoImplicit false
set_option relaxedAutoImplicit false

namespace StudStuff.ThreadPool

open Lib

variable {W : ℕ} {s s' : State W}

/-! ### What is left to do -/

section Work

instance : Fintype (Thread W) :=
  Fintype.ofSurjective (fun index : Option (Fin W) ↦ index.elim .controller .worker) fun thread ↦ by
    cases thread with
    | controller => exact ⟨none, rfl⟩
    | worker w => exact ⟨some w, rfl⟩

/-- What a worker does before it exits, without the tasks in the queue. -/
def Worker.work : Worker → ℕ
  | .acquiring => 2
  | .waiting => 1
  | .locked => 1
  | .running _ => 3
  | .exited => 0
  | .crashed => 0

/-- What a call adds before it returns. -/
def Call.work : Call → ℕ
  | .idle => 0
  | .checked _ => 6
  | .pushed _ => 2

/-- What is left to do. -/
def State.work (s : State W) : ℕ :=
  ∑ w, (s.workers w).work + ∑ thread, (s.calls thread).work + 3 * s.queue.length

/-- A worker goes on. -/
theorem work_setWorker {w : Fin W} {worker : Worker} (hworker : s.workers w = worker)
    (worker' : Worker) : (s.setWorker w worker').work + worker.work = s.work + worker'.work := by
  have hsum : ∑ other, ((s.setWorker w worker').workers other).work + (s.workers w).work =
      ∑ other, (s.workers other).work + worker'.work :=
    sum_weight_update Worker.work s.workers w worker'
  have hleft : (s.setWorker w worker').work =
      ∑ other, ((s.setWorker w worker').workers other).work +
        ∑ thread, (s.calls thread).work + 3 * s.queue.length := rfl
  rw [hworker] at hsum
  rw [hleft, State.work]
  omega

/-- A call goes on. -/
theorem work_setCall {thread : Thread W} {call : Call} (hcall : s.calls thread = call)
    (call' : Call) : (s.setCall thread call').work + call.work = s.work + call'.work := by
  have hsum : ∑ other, ((s.setCall thread call').calls other).work + (s.calls thread).work =
      ∑ other, (s.calls other).work + call'.work :=
    sum_weight_update Call.work s.calls thread call'
  have hleft : (s.setCall thread call').work = ∑ w, (s.workers w).work +
      ∑ other, ((s.setCall thread call').calls other).work + 3 * s.queue.length := rfl
  rw [hcall] at hsum
  rw [hleft, State.work]
  omega

theorem work_push {thread : Thread W} {task : ℕ} (hcall : s.calls thread = .checked task) :
    (s.push thread task).work + 1 = s.work := by
  have hset := work_setCall hcall (.pushed task)
  have hpush : (s.push thread task).work = ∑ w, (s.workers w).work +
      ∑ other, ((s.setCall thread (.pushed task)).calls other).work +
        3 * (s.queue ++ [task]).length := rfl
  have hcalls : (s.setCall thread (.pushed task)).work = ∑ w, (s.workers w).work +
      ∑ other, ((s.setCall thread (.pushed task)).calls other).work +
        3 * s.queue.length := rfl
  rw [List.length_append, List.length_singleton] at hpush
  simp only [Call.work] at hset
  omega

theorem work_take {w : Fin W} {task : ℕ} {rest : List ℕ} (hworker : s.workers w = .locked)
    (hqueue : s.queue = task :: rest) : (s.take w task rest).work + 1 = s.work := by
  have hset := work_setWorker hworker (.running task)
  have htake : (s.take w task rest).work =
      ∑ other, ((s.setWorker w (.running task)).workers other).work +
        ∑ thread, (s.calls thread).work + 3 * rest.length := rfl
  have hworkers : (s.setWorker w (.running task)).work =
      ∑ other, ((s.setWorker w (.running task)).workers other).work +
        ∑ thread, (s.calls thread).work + 3 * s.queue.length := rfl
  rw [hqueue, List.length_cons] at hworkers
  simp only [Worker.work] at hset
  omega

end Work

/-! ### Less and less to do -/

section Advances

/-- Steps that only wake workers up and begin calls. -/
theorem not_advances (hworkers : ∀ w, s.workers w = .waiting ∨ s'.workers w = s.workers w)
    (hcalls : ∀ thread, s.calls thread = .idle ∨ s'.calls thread = s.calls thread) :
    ¬Advances s s' := by
  rintro (⟨w, hwaiting, hne⟩ | ⟨thread, hidle, hne⟩)
  · exact (hworkers w).elim hwaiting hne
  · exact (hcalls thread).elim hidle hne

/-- A wake-up is not what a thread does by itself. -/
theorem not_advances_wake {w : Fin W} (hwaiting : s.workers w = .waiting) :
    ¬Advances s (s.setWorker w .acquiring) := by
  refine not_advances (fun other ↦ ?_) fun _ ↦ Or.inr rfl
  rw [workers_setWorker]
  split_ifs with hother
  · exact Or.inl (hother ▸ hwaiting)
  · exact Or.inr rfl

/-- The beginning of a call of `Enqueue` may add work. -/
theorem not_advances_check {thread : Thread W} (hcall : s.calls thread = .idle) :
    ¬Advances s (s.checked thread) := by
  refine not_advances (fun _ ↦ Or.inr rfl) fun other ↦ ?_
  have hcalls : (s.checked thread).calls other =
      if other = thread then .checked s.issued else s.calls other := calls_setCall ..
  rw [hcalls]
  split_ifs with hother
  · exact Or.inl (hother ▸ hcall)
  · exact Or.inr rfl

theorem not_advances_requestStop : ¬Advances s s.requestStop := by
  refine not_advances (fun w ↦ ?_) fun _ ↦ Or.inr rfl
  by_cases hwaiting : s.workers w = .waiting
  · exact Or.inl hwaiting
  · exact Or.inr (if_neg hwaiting)

/-- A thread that goes on leaves less to do. -/
theorem work_lt (hstep : Step s s') (hadvances : Advances s s') : s'.work < s.work := by
  have hworker {w : Fin W} {worker worker' : Worker} (hbefore : s.workers w = worker)
      (hless : worker'.work < worker.work) : (s.setWorker w worker').work < s.work := by
    have hset := work_setWorker hbefore worker'
    omega
  cases hstep with
  | reject thread hable hcall hstop =>
    exact absurd hadvances (not_advances (fun _ ↦ Or.inr rfl) fun _ ↦ Or.inr rfl)
  | check thread hable hcall hstop => exact absurd hadvances (not_advances_check hcall)
  | push thread task hcall hunlocked => exact Nat.lt_of_succ_le (work_push hcall).le
  | notifyNone thread task hcall hnone =>
    have hset : (s.accept thread task).work + 2 = s.work + 0 := work_setCall hcall .idle
    omega
  | notifyOne thread task w hcall hwaiting =>
    -- The worker that wakes up comes round to the queue once more, on account of the call.
    have hcall' : (s.setWorker w .acquiring).calls thread = .pushed task := hcall
    have hset : ((s.setWorker w .acquiring).accept thread task).work + 2 =
        (s.setWorker w .acquiring).work + 0 := work_setCall hcall' .idle
    have hwoken : (s.setWorker w .acquiring).work + 1 = s.work + 2 :=
      work_setWorker hwaiting .acquiring
    omega
  | requestStop hjoining hcall => exact absurd hadvances not_advances_requestStop
  | join hjoining hexited =>
    exact absurd hadvances (not_advances (fun _ ↦ Or.inr rfl) fun _ ↦ Or.inr rfl)
  | wake w hwaiting => exact absurd hadvances (not_advances_wake hwaiting)
  | sleep w hacquiring hunlocked hstop hempty => exact hworker hacquiring (by decide)
  | lock w hacquiring hunlocked hready => exact hworker hacquiring (by decide)
  | exit w hlocked hstop hempty => exact hworker hlocked (by decide)
  | take w task rest hlocked hqueue => exact Nat.lt_of_succ_le (work_take hlocked hqueue).le
  | crash w hlocked hstop hempty => exact hworker hlocked (by decide)
  | complete w task hbusy hcall =>
    have hset : (s.complete w task).work + 3 = s.work + 2 := work_setWorker hbusy .acquiring
    omega

end Advances

/-! ### The steps of a shutdown -/

section Winds

/-- A step while the controller joins the threads. A call of `Enqueue` that throws changes
nothing. -/
def Winds (s s' : State W) : Prop := Step s s' ∧ s.joining = true ∧ s' ≠ s

/-- In a shutdown nobody sleeps and no call begins, so whatever changes something is a thread that
goes on, or the return of `Shutdown`. -/
theorem Winds.advances_or_returns (h : Winds s s') (hcontrolled : Controlled s)
    (hwakeful : Wakeful s) :
    Advances s s' ∨ s' = { s with joining := false, returned := true } := by
  obtain ⟨hstep, hjoining, hne⟩ := h
  have hstopped : s.stop = true := hcontrolled.joining hjoining
  have hrunning (hstop : s.stop = false) : False := by
    rw [hstopped] at hstop
    cases hstop
  cases hstep with
  | reject thread hable hcall hstop => exact absurd rfl hne
  | check thread hable hcall hstop => exact (hrunning hstop).elim
  | push thread task hcall hunlocked =>
    exact Or.inl (advances_call hcall (calls_setCall_self ..) Call.noConfusion Call.noConfusion)
  | notifyNone thread task hcall hnone =>
    exact Or.inl (advances_call hcall (calls_setCall_self ..) Call.noConfusion Call.noConfusion)
  | notifyOne thread task w hcall hwaiting =>
    exact Or.inl (advances_call hcall (calls_setCall_self ..) Call.noConfusion Call.noConfusion)
  | requestStop hnot hcall =>
    rw [hjoining] at hnot
    cases hnot
  | join hjoins hexited => exact Or.inr rfl
  | wake w hwaiting => exact absurd hwaiting (hwakeful.stopped hstopped w)
  | sleep w hacquiring hunlocked hstop hempty => exact (hrunning hstop).elim
  | lock w hacquiring hunlocked hready =>
    exact Or.inl (advances_worker hacquiring (workers_setWorker_self ..) Worker.noConfusion
      Worker.noConfusion)
  | exit w hlocked hstop hempty =>
    exact Or.inl (advances_worker hlocked (workers_setWorker_self ..) Worker.noConfusion
      Worker.noConfusion)
  | take w task rest hlocked hqueue =>
    exact Or.inl (advances_worker hlocked (workers_setWorker_self ..) Worker.noConfusion
      Worker.noConfusion)
  | crash w hlocked hstop hempty => exact (hrunning hstop).elim
  | complete w task hbusy hcall =>
    exact Or.inl (advances_worker hbusy (workers_setWorker_self ..) Worker.noConfusion
      Worker.noConfusion)

/-- The work that is left, and the return. -/
def State.shutdownWork (s : State W) : ℕ := s.work + if s.joining then 1 else 0

/-- Every step of a shutdown leaves less to do. -/
theorem Winds.shutdownWork_lt (h : Winds s s') (hcontrolled : Controlled s)
    (hwakeful : Wakeful s) : s'.shutdownWork < s.shutdownWork := by
  have hjoining : s.shutdownWork = s.work + 1 := by rw [State.shutdownWork, h.2.1, if_pos rfl]
  rw [hjoining]
  rcases h.advances_or_returns hcontrolled hwakeful with hadvances | rfl
  · have hless := work_lt h.1 hadvances
    have hbound : s'.shutdownWork ≤ s'.work + 1 := by
      rw [State.shutdownWork]
      split_ifs <;> omega
    omega
  · exact Nat.lt_succ_self _

/-- As long as the controller joins the threads, something can happen. -/
theorem exists_winds (hW : 0 < W) (hreach : Reachable s) (hjoining : s.joining = true) :
    ∃ s', Winds s s' := by
  have hcontrolled := controlled_of_reachable hW hreach
  by_cases hexited : ∀ w, s.workers w = .exited
  · refine ⟨_, .join hjoining hexited, hjoining, fun heq ↦ ?_⟩
    have hleft : false = s.joining := congrArg State.joining heq
    rw [hjoining] at hleft
    cases hleft
  · have hstop : s.stop = true := hcontrolled.joining hjoining
    have hroused : s.Roused :=
      (wakeful_of_reachable hW hreach).roused (Or.inr hstop) (not_forall.mp hexited)
    obtain ⟨s', hstep, hadvances⟩ := hroused.exists_advance hcontrolled (Or.inr hstop)
    refine ⟨s', hstep, hjoining, ?_⟩
    rintro rfl
    rcases hadvances with ⟨w, -, hne⟩ | ⟨thread, -, hne⟩
    · exact hne rfl
    · exact hne rfl

/-- The controller joins until `Shutdown` returns. -/
theorem Winds.joining_or_returned (h : Winds s s') : s'.joining = true ∨ s'.returned = true := by
  obtain ⟨hstep, hjoining, -⟩ := h
  cases hstep with
  | join _ _ => exact Or.inr rfl
  | requestStop _ _ => exact Or.inl rfl
  | reject thread hable hcall hstop => exact Or.inl hjoining
  | check thread hable hcall hstop => exact Or.inl hjoining
  | push thread task hcall hunlocked => exact Or.inl hjoining
  | notifyNone thread task hcall hnone => exact Or.inl hjoining
  | notifyOne thread task w hcall hwaiting => exact Or.inl hjoining
  | wake w hwaiting => exact Or.inl hjoining
  | sleep w hworker hunlocked hstop hempty => exact Or.inl hjoining
  | lock w hworker hunlocked hready => exact Or.inl hjoining
  | exit w hworker hstop hempty => exact Or.inl hjoining
  | take w task rest hworker hqueue => exact Or.inl hjoining
  | crash w hworker hstop hempty => exact Or.inl hjoining
  | complete w task hworker hcall => exact Or.inl hjoining

/-- The states of a shutdown are states of the pool. -/
theorem reachable_of_winds (hreach : Reachable s) (h : Relation.ReflTransGen Winds s s') :
    Reachable s' :=
  hreach.trans (Relation.ReflTransGen.mono (fun _ _ hwinds ↦ hwinds.1) _ _ h)

end Winds

/-! ### The end of a shutdown -/

section Finished

/-- `Shutdown` has returned, and every task that was pushed has been completed once. -/
structure Finished (s : State W) : Prop where
  returned : s.returned = true
  exited : ∀ w, s.workers w = .exited
  idle : ∀ thread, s.calls thread = .idle
  drained : s.queue = []
  completed : ∀ task, s.completed.count task = if task ∈ s.pushed then 1 else 0

/-- When all workers have exited, what was pushed is what was completed. -/
theorem Accounted.completed_of_exited (h : Accounted s) (hexited : ∀ w, s.workers w = .exited)
    (hempty : s.queue = []) (task : ℕ) :
    s.completed.count task = if task ∈ s.pushed then 1 else 0 := by
  have hrunners : s.runners task = 0 := by
    rw [State.runners, countWhere, Finset.card_eq_zero, Finset.filter_eq_empty_iff]
    intro w _ hrunning
    rw [hexited w] at hrunning
    cases hrunning
  have hruns := h.runs task
  have htaken : s.pushed = s.taken := by rw [h.fifo, hempty, List.append_nil]
  rw [hrunners, Nat.add_zero, ← htaken] at hruns
  rw [← hruns]
  split_ifs with hmem
  · exact List.count_eq_one_of_mem h.nodup hmem
  · exact List.count_eq_zero_of_not_mem hmem

theorem finished_of_returned (hW : 0 < W) (hreach : Reachable s) (hreturned : s.returned = true) :
    Finished s := by
  have hcontrolled := controlled_of_reachable hW hreach
  have hexited := hcontrolled.returned hreturned
  have hempty := hcontrolled.drained hexited
  refine ⟨hreturned, hexited, fun thread ↦ ?_, hempty,
    (accounted_of_reachable hreach).completed_of_exited hexited hempty⟩
  by_contra hcall
  obtain ⟨w, hlives⟩ := hcontrolled.not_drained hW hcall
  exact hlives (hexited w)

/-- Once a stop was requested, no interleaving goes on for ever, and none ends before `Shutdown`
has returned and every task that was pushed has been completed once. -/
theorem shutdown_returns (hW : 0 < W) (hreach : Reachable s) (hjoining : s.joining = true) :
    (¬∃ run : ℕ → State W, run 0 = s ∧ ∀ n, Winds (run n) (run (n + 1))) ∧
      ∀ s', Relation.ReflTransGen Winds s s' → (∃ s'', Winds s' s'') ∨ Finished s' := by
  refine ⟨not_infinite_run State.shutdownWork fun s₁ s₂ hwinds hstep ↦ ?_, fun s' hwinds ↦ ?_⟩
  · have hreach₁ : Reachable s₁ := reachable_of_winds hreach hwinds
    exact hstep.shutdownWork_lt (controlled_of_reachable hW hreach₁)
      (wakeful_of_reachable hW hreach₁)
  · have hreach' : Reachable s' := reachable_of_winds hreach hwinds
    have hstate : s'.joining = true ∨ s'.returned = true := by
      rcases hwinds.cases_tail with rfl | ⟨_, -, hlast⟩
      · exact Or.inl hjoining
      · exact hlast.joining_or_returned
    rcases hstate with hjoins | hreturned
    · exact Or.inl (exists_winds hW hreach' hjoins)
    · exact Or.inr (finished_of_returned hW hreach' hreturned)

/-- A task waits for the only worker, which has not begun. -/
theorem shutdown_returns_queued :
    let s := ((((State.start 1).checked .controller).push .controller 0).accept .controller
      0).requestStop
    (¬∃ run : ℕ → State 1, run 0 = s ∧ ∀ n, Winds (run n) (run (n + 1))) ∧
      ∀ s', Relation.ReflTransGen Winds s s' → (∃ s'', Winds s' s'') ∨ Finished s' :=
  shutdown_returns Nat.one_pos (.tail (.tail (.tail (.tail .refl (.check .controller rfl rfl rfl))
    (.push .controller 0 rfl fun _ ↦ Worker.noConfusion))
    (.notifyNone .controller 0 rfl fun _ ↦ Worker.noConfusion)) (.requestStop rfl rfl)) rfl

end Finished

end StudStuff.ThreadPool
