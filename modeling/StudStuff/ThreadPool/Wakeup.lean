import StudStuff.ThreadPool.Shutdown

/-!
# No wake-up is lost

`Enqueue` notifies after it has released the mutex, so other threads may run between the push and
the notification. `Wakeful` is the invariant that they cannot break: while no stop was requested and
the queue is not empty, a worker is up or a notification is still to be issued. A worker goes to
sleep only when it sees an empty queue, and a notification that finds nobody asleep is not needed.

`reachable_awake` says that a pool with work to do is never asleep, and that one of its threads can
go on.
-/

set_option autoImplicit false
set_option relaxedAutoImplicit false

namespace StudStuff.ThreadPool

open Lib

variable {W : ℕ} {s s' : State W}

/-! ### The invariant -/

/-- A worker is up, or a thread that has pushed a task is still to notify. -/
def State.Roused (s : State W) : Prop :=
  (∃ w, s.workers w ≠ .waiting ∧ s.workers w ≠ .exited) ∨
    ∃ thread task, s.calls thread = .pushed task

/-- Nobody sleeps after a stop was requested, and nobody sleeps over a queue without a thread that
is still to notify. -/
structure Wakeful (s : State W) : Prop where
  stopped : s.stop = true → ∀ w, s.workers w ≠ .waiting
  queued : s.stop = false → s.queue ≠ [] → s.Roused

section Step

theorem wakeful_start : Wakeful (.start W) :=
  ⟨fun hstop ↦ absurd hstop Bool.false_ne_true, fun _ hqueue ↦ absurd rfl hqueue⟩

/-- A worker that is up rouses the pool. -/
theorem State.Roused.of_worker {w : Fin W} {worker : Worker} (hworker : s.workers w = worker)
    (hwaiting : worker ≠ .waiting) (hexited : worker ≠ .exited) : s.Roused :=
  Or.inl ⟨w, hworker ▸ hwaiting, hworker ▸ hexited⟩

/-- A worker that goes on and stays up. -/
theorem Wakeful.setWorker (h : Wakeful s) (w : Fin W) {worker : Worker}
    (hwaiting : worker ≠ .waiting) (hexited : worker ≠ .exited) :
    Wakeful (s.setWorker w worker) := by
  refine ⟨fun hstop other ↦ ?_, fun _ _ ↦
    .of_worker (workers_setWorker_self s w worker) hwaiting hexited⟩
  rw [workers_setWorker]
  split_ifs
  · exact hwaiting
  · exact h.stopped hstop other

/-- A thread that is idle begins a call. -/
theorem Wakeful.checked (h : Wakeful s) {thread : Thread W} (hcall : s.calls thread = .idle) :
    Wakeful (s.checked thread) := by
  refine ⟨h.stopped, fun hstop hqueue ↦ ?_⟩
  rcases h.queued hstop hqueue with hworker | ⟨other, task, hpushed⟩
  · exact Or.inl hworker
  · have hother : other ≠ thread := by
      rintro rfl
      rw [hcall] at hpushed
      cases hpushed
    refine Or.inr ⟨other, task, ?_⟩
    show (s.setCall thread (.checked s.issued)).calls other = .pushed task
    rw [calls_setCall, if_neg hother, hpushed]

/-- Every step keeps the invariant. -/
theorem Wakeful.step (h : Wakeful s) (hcontrolled : Controlled s) (hW : 0 < W)
    (hstep : Step s s') : Wakeful s' := by
  cases hstep with
  | reject thread hable hcall hstop => exact h
  | check thread hable hcall hstop => exact h.checked hcall
  | push thread task hcall hunlocked =>
    have hpushed : (s.push thread task).calls thread = .pushed task := calls_setCall_self ..
    exact ⟨h.stopped, fun _ _ ↦ Or.inr ⟨thread, task, hpushed⟩⟩
  | notifyNone thread task hcall hnone =>
    -- Nobody sleeps, and nobody has left without a stop, so every worker is up.
    refine ⟨h.stopped, fun hstop _ ↦ Or.inl ⟨⟨0, hW⟩, hnone _, fun hexited ↦ ?_⟩⟩
    have hstopped : s.stop = true := hcontrolled.exited _ hexited
    have hrunning : s.stop = false := hstop
    rw [hstopped] at hrunning
    cases hrunning
  | notifyOne thread task w hcall hwaiting =>
    have hset : Wakeful (s.setWorker w .acquiring) :=
      h.setWorker w Worker.noConfusion Worker.noConfusion
    have hw : ((s.setWorker w .acquiring).accept thread task).workers w = .acquiring :=
      workers_setWorker_self ..
    exact ⟨hset.stopped, fun _ _ ↦ .of_worker hw Worker.noConfusion Worker.noConfusion⟩
  | requestStop hjoining hcall =>
    refine ⟨fun _ w hwaiting ↦ ?_, fun hstop _ ↦ absurd hstop.symm Bool.false_ne_true⟩
    have hworker : (if s.workers w = .waiting then .acquiring else s.workers w) = .waiting :=
      hwaiting
    split_ifs at hworker with hwas
    exact hwas hworker
  | join hjoining hexited => exact ⟨h.stopped, h.queued⟩
  | wake w hwaiting => exact h.setWorker w Worker.noConfusion Worker.noConfusion
  | sleep w hworker hunlocked hstop hempty =>
    refine ⟨fun hstopped ↦ ?_, fun _ hqueue ↦ absurd hempty hqueue⟩
    have hrunning : s.stop = true := hstopped
    rw [hstop] at hrunning
    cases hrunning
  | lock w hworker hunlocked hready =>
    exact h.setWorker w Worker.noConfusion Worker.noConfusion
  | exit w hworker hstop hempty =>
    refine ⟨fun _ other ↦ ?_, fun _ hqueue ↦ absurd hempty hqueue⟩
    rw [workers_setWorker]
    split_ifs
    · exact Worker.noConfusion
    · exact h.stopped hstop other
  | take w task rest hworker hqueue =>
    have hset : Wakeful (s.setWorker w (.running task)) :=
      h.setWorker w Worker.noConfusion Worker.noConfusion
    have hw : (s.take w task rest).workers w = .running task :=
      workers_setWorker_self ..
    exact ⟨hset.stopped, fun _ _ ↦ .of_worker hw Worker.noConfusion Worker.noConfusion⟩
  | crash w hworker hstop hempty => exact h.setWorker w Worker.noConfusion Worker.noConfusion
  | complete w task hworker hcall =>
    have hset : Wakeful (s.setWorker w .acquiring) :=
      h.setWorker w Worker.noConfusion Worker.noConfusion
    exact ⟨hset.stopped, hset.queued⟩

/-- Every reachable state. -/
theorem wakeful_of_reachable (hW : 0 < W) (hreach : Reachable s) : Wakeful s :=
  holds_of_reaches wakeful_start
    (fun _ _ hreaches h ↦ h.step (controlled_of_reachable hW hreaches) hW) hreach

end Step

/-! ### A pool with work to do -/

section Progress

/-- Every worker that has not exited is in the wait set, and no notification is still to come. -/
def State.Asleep (s : State W) : Prop :=
  (∀ w, s.workers w = .exited ∨ s.workers w = .waiting) ∧
    ∀ thread task, s.calls thread ≠ .pushed task

/-- A worker that was up goes on, or a call that was under way. -/
def Advances (s s' : State W) : Prop :=
  (∃ w, s.workers w ≠ .waiting ∧ s'.workers w ≠ s.workers w) ∨
    ∃ thread, s.calls thread ≠ .idle ∧ s'.calls thread ≠ s.calls thread

/-- A pool that is roused does not sleep. -/
theorem State.Roused.not_asleep (h : s.Roused) : ¬s.Asleep := by
  rintro ⟨hworkers, hcalls⟩
  rcases h with ⟨w, hwaiting, hexited⟩ | ⟨thread, task, hpushed⟩
  · rcases hworkers w with hworker | hworker
    · exact hexited hworker
    · exact hwaiting hworker
  · exact hcalls thread task hpushed

/-- Work to do keeps a pool roused, as long as a worker is left. -/
theorem Wakeful.roused (h : Wakeful s) (hready : s.queue ≠ [] ∨ s.stop = true)
    (hleft : ∃ w, s.workers w ≠ .exited) : s.Roused := by
  by_cases hstop : s.stop = true
  · obtain ⟨w, hexited⟩ := hleft
    exact Or.inl ⟨w, h.stopped hstop w, hexited⟩
  · have hqueue : s.queue ≠ [] := hready.resolve_right hstop
    exact h.queued (Bool.eq_false_of_not_eq_true hstop) hqueue

/-- A worker that changes its state. -/
theorem advances_worker {w : Fin W} {worker worker' : Worker} (hworker : s.workers w = worker)
    (hworker' : s'.workers w = worker') (hwaiting : worker ≠ .waiting) (hne : worker' ≠ worker) :
    Advances s s' := by
  refine Or.inl ⟨w, ?_, ?_⟩
  · rwa [hworker]
  · rwa [hworker, hworker']

/-- A call that changes its state. -/
theorem advances_call {thread : Thread W} {call call' : Call} (hcall : s.calls thread = call)
    (hcall' : s'.calls thread = call') (hidle : call ≠ .idle) (hne : call' ≠ call) :
    Advances s s' := by
  refine Or.inr ⟨thread, ?_, ?_⟩
  · rwa [hcall]
  · rwa [hcall, hcall']

/-- A thread that has pushed can notify, whether a worker sleeps or not. -/
theorem exists_notify {thread : Thread W} {task : ℕ} (hcall : s.calls thread = .pushed task) :
    ∃ s', Step s s' ∧ Advances s s' := by
  by_cases hnone : ∀ w, s.workers w ≠ .waiting
  · refine ⟨s.accept thread task, .notifyNone thread task hcall hnone, ?_⟩
    have hidle : (s.accept thread task).calls thread = .idle :=
      calls_setCall_self ..
    exact advances_call hcall hidle Call.noConfusion Call.noConfusion
  · obtain ⟨w, hwaiting⟩ := not_forall_not.mp hnone
    refine ⟨_, .notifyOne thread task w hcall hwaiting, ?_⟩
    have hidle : ((s.setWorker w .acquiring).accept thread task).calls thread = .idle :=
      calls_setCall_self ..
    exact advances_call hcall hidle Call.noConfusion Call.noConfusion

/-- A worker that holds the mutex has something to do. -/
theorem Controlled.exists_unlock (h : Controlled s) {w : Fin W} (hworker : s.workers w = .locked) :
    ∃ s', Step s s' ∧ Advances s s' := by
  cases hqueue : s.queue with
  | nil =>
    have hstop : s.stop = true := (h.locked w hworker).resolve_left (absurd hqueue)
    have hexited : (s.setWorker w .exited).workers w = .exited :=
      workers_setWorker_self ..
    exact ⟨_, .exit w hworker hstop hqueue,
      advances_worker hworker hexited Worker.noConfusion Worker.noConfusion⟩
  | cons task rest =>
    have hrunning : (s.take w task rest).workers w = .running task :=
      workers_setWorker_self ..
    exact ⟨_, .take w task rest hworker hqueue,
      advances_worker hworker hrunning Worker.noConfusion Worker.noConfusion⟩

/-- While nobody holds the mutex, a task that runs can end, or its `Enqueue` can go on. -/
theorem exists_run {w : Fin W} {task : ℕ} (hunlocked : s.Unlocked)
    (hworker : s.workers w = .running task) : ∃ s', Step s s' ∧ Advances s s' := by
  cases hcall : s.calls (.worker w) with
  | idle =>
    have hacquiring : (s.complete w task).workers w = .acquiring :=
      workers_setWorker_self ..
    exact ⟨_, .complete w task hworker hcall,
      advances_worker hworker hacquiring Worker.noConfusion Worker.noConfusion⟩
  | checked other =>
    have hpushed : (s.push (.worker w) other).calls (.worker w) = .pushed other :=
      calls_setCall_self ..
    exact ⟨_, .push (.worker w) other hcall hunlocked,
      advances_call hcall hpushed Call.noConfusion Call.noConfusion⟩
  | pushed other => exact exists_notify hcall

/-- In a roused pool with work to do, a thread can go on that need not be woken up first. -/
theorem State.Roused.exists_advance (h : s.Roused) (hcontrolled : Controlled s)
    (hready : s.queue ≠ [] ∨ s.stop = true) : ∃ s', Step s s' ∧ Advances s s' := by
  by_cases hunlocked : s.Unlocked
  · rcases h with ⟨w, hwaiting, hexited⟩ | ⟨thread, task, hpushed⟩
    · cases hworker : s.workers w with
      | acquiring =>
        have hlocked : (s.setWorker w .locked).workers w = .locked :=
          workers_setWorker_self ..
        exact ⟨_, .lock w hworker hunlocked hready,
          advances_worker hworker hlocked Worker.noConfusion Worker.noConfusion⟩
      | waiting => exact absurd hworker hwaiting
      | locked => exact absurd hworker (hunlocked w)
      | running task => exact exists_run hunlocked hworker
      | exited => exact absurd hworker hexited
      | crashed => exact absurd hworker (hcontrolled.safe w)
    · exact exists_notify hpushed
  · obtain ⟨w, hlocked⟩ := not_forall_not.mp hunlocked
    exact hcontrolled.exists_unlock hlocked

/-- A pool with work to do and a worker left is not asleep, and one of its threads can go on. -/
theorem reachable_awake (hreach : Reachable s) (hready : s.queue ≠ [] ∨ s.stop = true)
    (hleft : ¬∀ w, s.workers w = .exited) :
    ¬s.Asleep ∧ ∃ s', Step s s' ∧ Advances s s' := by
  have hexists : ∃ w, s.workers w ≠ .exited := not_forall.mp hleft
  obtain ⟨w, hexited⟩ := hexists
  have hW : 0 < W := Nat.zero_lt_of_lt w.isLt
  have hroused : s.Roused := (wakeful_of_reachable hW hreach).roused hready ⟨w, hexited⟩
  exact ⟨hroused.not_asleep,
    hroused.exists_advance (controlled_of_reachable hW hreach) hready⟩

/-- The only worker sleeps over a task that the controller has not notified it of. -/
theorem reachable_awake_pushed :
    ¬((((State.start 1).setWorker 0 .waiting).checked .controller).push .controller 0).Asleep ∧
      ∃ s', Step ((((State.start 1).setWorker 0 .waiting).checked .controller).push .controller 0)
        s' ∧ Advances
          ((((State.start 1).setWorker 0 .waiting).checked .controller).push .controller 0) s' :=
  have hunlocked : (((State.start 1).setWorker 0 .waiting).checked .controller).Unlocked :=
    (by decide : ∀ w, ((State.start 1).setWorker 0 .waiting).workers w ≠ .locked)
  reachable_awake
    (.tail (.tail (.tail .refl (.sleep 0 rfl (fun _ ↦ Worker.noConfusion) rfl rfl))
      (.check .controller rfl rfl rfl)) (.push .controller 0 rfl hunlocked))
    (Or.inl (List.cons_ne_nil 0 [])) (not_forall.mpr ⟨0, Worker.noConfusion⟩)

end Progress

end StudStuff.ThreadPool
