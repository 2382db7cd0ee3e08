import StudStuff.ThreadPool.Accounting

/-!
# No task is lost at the end

`Controlled` is the invariant about the threads. At most one worker holds the mutex, and then it
has something to do. A worker exits only after a stop was requested, when the controller pushes
nothing more. A task that runs may push, but then its worker has not exited, so the queue is empty
when all workers have.

`reachable_tasks` combines it with the accounting of the tasks.
-/

set_option autoImplicit false
set_option relaxedAutoImplicit false

namespace StudStuff.ThreadPool

open Lib

variable {W : ℕ} {s s' : State W}

/-! ### The invariant -/

/-- Every thread is where the others expect it to be. -/
structure Controlled (s : State W) : Prop where
  locked : ∀ w, s.workers w = .locked → s.queue ≠ [] ∨ s.stop = true
  exclusive : ∀ w w', s.workers w = .locked → s.workers w' = .locked → w = w'
  safe : ∀ w, s.workers w ≠ .crashed
  exited : ∀ w, s.workers w = .exited → s.stop = true
  callers : ∀ w, s.calls (.worker w) ≠ .idle → ∃ task, s.workers w = .running task
  controller : s.stop = true → s.calls .controller = .idle
  joining : s.joining = true → s.stop = true
  drained : (∀ w, s.workers w = .exited) → s.queue = []
  returned : s.returned = true → ∀ w, s.workers w = .exited

section Step

theorem controlled_start : Controlled (.start W) := by
  refine ⟨fun _ h ↦ ?_, fun _ _ h ↦ ?_, fun _ h ↦ ?_, fun _ h ↦ ?_, fun _ h ↦ absurd rfl h,
    fun _ ↦ rfl, fun h ↦ ?_, fun _ ↦ rfl, fun h ↦ ?_⟩
  all_goals cases h

/-- A worker goes on while the queue and the flags stay. -/
theorem Controlled.setWorker (h : Controlled s) {w : Fin W} {worker : Worker}
    (hlocked : worker = .locked → s.Unlocked ∧ (s.queue ≠ [] ∨ s.stop = true))
    (hsafe : worker ≠ .crashed) (hexited : worker = .exited → s.stop = true ∧ s.queue = [])
    (hidle : s.calls (.worker w) = .idle) (hlives : s.workers w ≠ .exited) :
    Controlled (s.setWorker w worker) := by
  have hworkers (other : Fin W) : (s.setWorker w worker).workers other =
      if other = w then worker else s.workers other :=
    workers_setWorker ..
  refine ⟨fun other hother ↦ ?_, fun other other' hother hother' ↦ ?_, fun other hother ↦ ?_,
    fun other hother ↦ ?_, fun other hother ↦ ?_, h.controller, h.joining, fun hall ↦ ?_,
    fun hreturned ↦ absurd (h.returned hreturned w) hlives⟩
  · rw [hworkers] at hother
    split_ifs at hother
    · exact (hlocked hother).2
    · exact h.locked other hother
  · rw [hworkers] at hother hother'
    split_ifs at hother hother' with hsame hsame' hsame'
    · rw [hsame, hsame']
    · exact absurd hother' ((hlocked hother).1 other')
    · exact absurd hother ((hlocked hother').1 other)
    · exact h.exclusive other other' hother hother'
  · rw [hworkers] at hother
    split_ifs at hother
    · exact hsafe hother
    · exact h.safe other hother
  · rw [hworkers] at hother
    split_ifs at hother
    · exact (hexited hother).1
    · exact h.exited other hother
  · have hne : other ≠ w := fun hsame ↦ hother (hsame ▸ hidle)
    rw [hworkers, if_neg hne]
    exact h.callers other hother
  · have hw := hall w
    rw [hworkers, if_pos rfl] at hw
    exact (hexited hw).2

/-- A worker that runs no task calls nothing. -/
theorem Controlled.idle (h : Controlled s) {w : Fin W}
    (hworker : ∀ task, s.workers w ≠ .running task) : s.calls (.worker w) = .idle := by
  by_contra hcall
  obtain ⟨task, hrunning⟩ := h.callers w hcall
  exact hworker task hrunning

/-- A call begins or goes on. -/
theorem Controlled.check (h : Controlled s) {thread : Thread W} (hable : s.Able thread)
    (hstop : s.stop = false) : Controlled (s.checked thread) := by
  refine ⟨h.locked, h.exclusive, h.safe, h.exited, fun w hcall ↦ ?_, fun hrequested ↦ ?_, h.joining,
    h.drained, h.returned⟩
  · by_cases hthread : Thread.worker w = thread
    · rw [← hthread] at hable
      exact hable
    · exact h.callers w fun hidle ↦ hcall ((calls_setCall ..).trans ((if_neg hthread).trans hidle))
  · rw [show s.stop = true from hrequested] at hstop
    cases hstop

/-- Some worker has not exited while a call is under way. -/
theorem Controlled.not_drained (h : Controlled s) (hW : 0 < W) {thread : Thread W}
    (hcall : s.calls thread ≠ .idle) : ∃ w, s.workers w ≠ .exited := by
  cases thread with
  | controller =>
    refine ⟨⟨0, hW⟩, fun hexited ↦ hcall (h.controller (h.exited _ hexited))⟩
  | worker w =>
    obtain ⟨task, hrunning⟩ := h.callers w hcall
    refine ⟨w, ?_⟩
    rw [hrunning]
    exact Worker.noConfusion

theorem Controlled.push (h : Controlled s) (hW : 0 < W) {thread : Thread W} {task : ℕ}
    (hcall : s.calls thread = .checked task) : Controlled (s.push thread task) := by
  have hcalling : s.calls thread ≠ .idle := by
    rw [hcall]
    exact Call.noConfusion
  refine ⟨fun _ _ ↦ Or.inl (List.append_ne_nil_of_right_ne_nil _ (List.cons_ne_nil task [])),
    h.exclusive, h.safe, h.exited, fun w hother ↦ ?_, fun hstop ↦ ?_, h.joining, fun hall ↦ ?_,
    h.returned⟩
  · by_cases hthread : Thread.worker w = thread
    · exact h.callers w (hthread ▸ hcalling)
    · exact h.callers w fun hidle ↦ hother ((calls_setCall ..).trans ((if_neg hthread).trans hidle))
  · by_cases hthread : Thread.controller = thread
    · exact absurd (hthread ▸ h.controller hstop) hcalling
    · exact (calls_setCall ..).trans ((if_neg hthread).trans (h.controller hstop))
  · obtain ⟨w, hlives⟩ := h.not_drained hW hcalling
    exact absurd (hall w) hlives

theorem Controlled.accept (h : Controlled s) (thread : Thread W) (task : ℕ) :
    Controlled (s.accept thread task) := by
  have hcalls (other : Thread W) : (s.accept thread task).calls other =
      if other = thread then .idle else s.calls other :=
    calls_setCall ..
  refine ⟨h.locked, h.exclusive, h.safe, h.exited, fun w hother ↦ ?_, fun hstop ↦ ?_, h.joining,
    h.drained, h.returned⟩
  · rw [hcalls] at hother
    split_ifs at hother
    · exact absurd rfl hother
    · exact h.callers w hother
  · rw [hcalls]
    split_ifs
    · rfl
    · exact h.controller hstop

theorem Controlled.requestStop (h : Controlled s) (hcall : s.calls .controller = .idle) :
    Controlled s.requestStop := by
  have hworkers {w : Fin W} {worker : Worker} (hworker : s.requestStop.workers w = worker)
      (hacquiring : worker ≠ .acquiring) : s.workers w = worker := by
    change (if s.workers w = .waiting then Worker.acquiring else s.workers w) = worker at hworker
    split_ifs at hworker
    · exact absurd hworker.symm hacquiring
    · exact hworker
  have hkept {w : Fin W} (hwaiting : s.workers w ≠ .waiting) :
      s.requestStop.workers w = s.workers w :=
    if_neg hwaiting
  refine ⟨fun _ _ ↦ Or.inr rfl, fun w w' hw hw' ↦ h.exclusive w w' (hworkers hw Worker.noConfusion)
    (hworkers hw' Worker.noConfusion), fun w hw ↦ h.safe w (hworkers hw Worker.noConfusion),
    fun _ _ ↦ rfl, fun w hcaller ↦ ?_, fun _ ↦ hcall, fun _ ↦ rfl,
    fun hall ↦ h.drained fun w ↦ hworkers (hall w) Worker.noConfusion, fun hreturned w ↦ ?_⟩
  · obtain ⟨task, hrunning⟩ := h.callers w hcaller
    refine ⟨task, (hkept ?_).trans hrunning⟩
    rw [hrunning]
    exact Worker.noConfusion
  · have hexited := h.returned hreturned w
    refine (hkept ?_).trans hexited
    rw [hexited]
    exact Worker.noConfusion

theorem Controlled.take (h : Controlled s) {w : Fin W} {task : ℕ} (rest : List ℕ)
    (hworker : s.workers w = .locked) : Controlled (s.take w task rest) := by
  have hworkers (other : Fin W) : (s.take w task rest).workers other =
      if other = w then .running task else s.workers other :=
    workers_setWorker ..
  have hunlocked (other : Fin W) : (s.take w task rest).workers other ≠ .locked := by
    intro hother
    rw [hworkers] at hother
    split_ifs at hother with hsame
    exact hsame (h.exclusive other w hother hworker)
  refine ⟨fun other hother ↦ absurd hother (hunlocked other),
    fun other _ hother ↦ absurd hother (hunlocked other), fun other hother ↦ ?_,
    fun other hother ↦ ?_, fun other hother ↦ ?_, h.controller, h.joining, fun hall ↦ ?_,
    fun hreturned ↦ ?_⟩
  · rw [hworkers] at hother
    split_ifs at hother
    exact h.safe other hother
  · rw [hworkers] at hother
    split_ifs at hother
    exact h.exited other hother
  · rw [hworkers]
    split_ifs
    · exact ⟨task, rfl⟩
    · exact h.callers other hother
  · have hw := hall w
    rw [hworkers, if_pos rfl] at hw
    cases hw
  · have hw := h.returned hreturned w
    rw [hworker] at hw
    cases hw

/-- One step, of any thread. -/
theorem Controlled.step (h : Controlled s) (hW : 0 < W) (hstep : Step s s') : Controlled s' := by
  have hbusy {w : Fin W} {worker : Worker} (hworker : s.workers w = worker)
      (hnot : ∀ task, worker ≠ .running task) : s.calls (.worker w) = .idle :=
    h.idle fun task ↦ hworker ▸ hnot task
  have hlives {w : Fin W} {worker : Worker} (hworker : s.workers w = worker)
      (hnot : worker ≠ .exited) : s.workers w ≠ .exited :=
    hworker ▸ hnot
  cases hstep with
  | reject thread hable hcall hstop => exact h
  | check thread hable hcall hstop => exact h.check hable hstop
  | push thread task hcall hunlocked => exact h.push hW hcall
  | notifyNone thread task hcall hnone => exact h.accept thread task
  | notifyOne thread task w hcall hwaiting =>
    exact (h.setWorker Worker.noConfusion Worker.noConfusion Worker.noConfusion
      (hbusy hwaiting fun _ ↦ Worker.noConfusion) (hlives hwaiting Worker.noConfusion)).accept
        thread task
  | requestStop hjoining hcall => exact h.requestStop hcall
  | join hjoining hexited =>
    exact ⟨h.locked, h.exclusive, h.safe, h.exited, h.callers, h.controller,
      fun hjoining ↦ Bool.noConfusion hjoining, h.drained, fun _ ↦ hexited⟩
  | wake w hwaiting =>
    exact h.setWorker Worker.noConfusion Worker.noConfusion Worker.noConfusion
      (hbusy hwaiting fun _ ↦ Worker.noConfusion) (hlives hwaiting Worker.noConfusion)
  | sleep w hworker hunlocked hstop hempty =>
    exact h.setWorker Worker.noConfusion Worker.noConfusion Worker.noConfusion
      (hbusy hworker fun _ ↦ Worker.noConfusion) (hlives hworker Worker.noConfusion)
  | lock w hworker hunlocked hready =>
    exact h.setWorker (fun _ ↦ ⟨hunlocked, hready⟩) Worker.noConfusion Worker.noConfusion
      (hbusy hworker fun _ ↦ Worker.noConfusion) (hlives hworker Worker.noConfusion)
  | exit w hworker hstop hempty =>
    exact h.setWorker Worker.noConfusion Worker.noConfusion (fun _ ↦ ⟨hstop, hempty⟩)
      (hbusy hworker fun _ ↦ Worker.noConfusion) (hlives hworker Worker.noConfusion)
  | take w task rest hworker hqueue => exact h.take rest hworker
  | crash w hworker hstop hempty =>
    rcases h.locked w hworker with hready | hrequested
    · exact absurd hempty hready
    · rw [hrequested] at hstop
      cases hstop
  | complete w task hworker hcall =>
    have hset : Controlled (s.setWorker w .acquiring) := h.setWorker Worker.noConfusion
      Worker.noConfusion Worker.noConfusion hcall (hlives hworker Worker.noConfusion)
    exact ⟨hset.locked, hset.exclusive, hset.safe, hset.exited, hset.callers, hset.controller,
      hset.joining, hset.drained, hset.returned⟩

/-- Every reachable state. -/
theorem controlled_of_reachable (hW : 0 < W) (hreach : Reachable s) : Controlled s :=
  holds_of_reaches controlled_start (fun _ _ _ h ↦ h.step hW) hreach

end Step

/-! ### The tasks of a pool -/

section Tasks

/-- What the pool promises about its tasks. -/
structure TasksKept (s : State W) : Prop where
  /-- A task whose `Enqueue` returned is in one place: in the queue, with one worker, or done. -/
  accepted : ∀ task ∈ s.accepted,
    s.queue.count task + s.runners task + s.completed.count task = 1
  front : ∀ w, s.workers w ≠ .crashed
  fifo : s.pushed = s.taken ++ s.queue
  drained : (∀ w, s.workers w = .exited) →
    s.queue = [] ∧ ∀ task ∈ s.accepted, s.completed.count task = 1
  returned : s.returned = true → ∀ w, s.workers w = .exited

/-- No interleaving loses a task or runs it twice. -/
theorem reachable_tasks (hW : 0 < W) (hreach : Reachable s) : TasksKept s := by
  have haccounted := accounted_of_reachable hreach
  have hcontrolled := controlled_of_reachable hW hreach
  have hplace (task : ℕ) (hmem : task ∈ s.accepted) :
      s.queue.count task + s.runners task + s.completed.count task = 1 := by
    have hcount := List.count_eq_one_of_mem haccounted.nodup (haccounted.accepted task hmem)
    rw [haccounted.fifo, List.count_append, haccounted.runs task] at hcount
    omega
  refine ⟨hplace, hcontrolled.safe, haccounted.fifo, fun hall ↦ ?_, hcontrolled.returned⟩
  have hempty := hcontrolled.drained hall
  refine ⟨hempty, fun task hmem ↦ ?_⟩
  have hrunners : s.runners task = 0 := by
    rw [State.runners, countWhere, Finset.card_eq_zero, Finset.filter_eq_empty_iff]
    intro w _ hrunning
    rw [hall w] at hrunning
    cases hrunning
  have hone := hplace task hmem
  rwa [hempty, hrunners, List.count_nil, Nat.add_zero, Nat.zero_add] at hone

/-- Two workers. The first sleeps until the controller has enqueued a task, and the stop is
requested while that task enqueues another one, between the check of the stop flag and the push.
The second worker runs that one, and `Shutdown` returns. -/
theorem reachable_tasks_stopped : ∃ s : State 2, s.returned = true ∧ s.accepted = [0, 1] ∧
    s.completed = [0, 1] ∧ TasksKept s := by
  have h₀ : Reachable (.start 2) := .refl
  have h₁ := h₀.tail (.sleep 0 rfl (by decide) rfl rfl)
  have h₂ := h₁.tail (.check .controller rfl rfl rfl)
  have h₃ := h₂.tail (.push .controller 0 rfl (by decide))
  have h₄ := h₃.tail (.notifyOne .controller 0 0 rfl rfl)
  have h₅ := h₄.tail (.lock 0 rfl (by decide) (Or.inl (List.cons_ne_nil 0 [])))
  have h₆ := h₅.tail (.take 0 0 [] rfl rfl)
  have h₇ := h₆.tail (.check (.worker 0) ⟨0, rfl⟩ rfl rfl)
  have h₈ := h₇.tail (.requestStop rfl rfl)
  have h₉ := h₈.tail (.push (.worker 0) 1 rfl (by decide))
  have h₁₀ := h₉.tail (.notifyNone (.worker 0) 1 rfl (by decide))
  have h₁₁ := h₁₀.tail (.complete 0 0 rfl rfl)
  have h₁₂ := h₁₁.tail (.lock 1 rfl (by decide) (Or.inl (List.cons_ne_nil 1 [])))
  have h₁₃ := h₁₂.tail (.take 1 1 [] rfl rfl)
  have h₁₄ := h₁₃.tail (.lock 0 rfl (by decide) (Or.inr rfl))
  have h₁₅ := h₁₄.tail (.exit 0 rfl rfl rfl)
  have h₁₆ := h₁₅.tail (.complete 1 1 rfl rfl)
  have h₁₇ := h₁₆.tail (.lock 1 rfl (by decide) (Or.inr rfl))
  have h₁₈ := h₁₇.tail (.exit 1 rfl rfl rfl)
  have h₁₉ := h₁₈.tail (.join rfl (by decide))
  exact ⟨_, rfl, rfl, rfl, reachable_tasks Nat.two_pos h₁₉⟩

end Tasks

end StudStuff.ThreadPool
