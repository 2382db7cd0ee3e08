import StudStuff.ThreadPool.Pool

/-!
# Where the tasks are

`Accounted` is the invariant about tasks: those pushed are those taken followed by those in the
queue, every task is pushed once, and those taken either have completed or are being run. Each step
keeps it (`Accounted.step`), whatever the other threads do.
-/

set_option autoImplicit false
set_option relaxedAutoImplicit false

namespace StudStuff.ThreadPool

open Lib

variable {W : ℕ} {s s' : State W}

/-! ### Counting the workers that run a task -/

section Runners

/-- A worker goes on that neither runs the task before nor afterwards. -/
theorem runners_setWorker {w : Fin W} {worker : Worker} (task : ℕ)
    (hbefore : s.workers w ≠ .running task) (hafter : worker ≠ .running task) :
    (s.setWorker w worker).runners task = s.runners task := by
  have hcount : (s.setWorker w worker).runners task +
        (if s.workers w = .running task then 1 else 0) =
      s.runners task + if worker = .running task then 1 else 0 := countWhere_update ..
  rwa [if_neg hbefore, if_neg hafter] at hcount

/-- A worker begins to run a task. -/
theorem runners_begin {w : Fin W} (hbefore : ∀ task, s.workers w ≠ .running task)
    (task other : ℕ) : (s.setWorker w (.running task)).runners other =
      s.runners other + if task = other then 1 else 0 := by
  have hcount : (s.setWorker w (.running task)).runners other +
      (if s.workers w = .running other then 1 else 0) =
        s.runners other + if Worker.running task = .running other then 1 else 0 :=
    countWhere_update ..
  simpa only [if_neg (hbefore other), Nat.add_zero, Worker.running.injEq] using hcount

/-- A worker stops running a task. -/
theorem runners_end {w : Fin W} {task : ℕ} {worker : Worker}
    (hbefore : s.workers w = .running task) (hafter : ∀ task, worker ≠ .running task)
    (other : ℕ) : (s.setWorker w worker).runners other + (if task = other then 1 else 0) =
      s.runners other := by
  have hcount : (s.setWorker w worker).runners other +
      (if s.workers w = .running other then 1 else 0) =
        s.runners other + if worker = .running other then 1 else 0 := countWhere_update ..
  simpa only [hbefore, if_neg (hafter other), Nat.add_zero, Worker.running.injEq] using hcount

theorem runners_requestStop (s : State W) (task : ℕ) :
    s.requestStop.runners task = s.runners task := by
  apply countWhere_congr _
  intro w
  change (if s.workers w = .waiting then Worker.acquiring else s.workers w) = _ ↔ _
  by_cases hwaiting : s.workers w = .waiting
  · simp [hwaiting]
  · rw [if_neg hwaiting]

theorem runners_start (task : ℕ) : (State.start W).runners task = 0 := by
  rw [State.runners, countWhere, Finset.card_eq_zero, Finset.filter_eq_empty_iff]
  intro w _ hrunning
  cases hrunning

end Runners

/-! ### The invariant -/

/-- Every task is in its place. -/
structure Accounted (s : State W) : Prop where
  fifo : s.pushed = s.taken ++ s.queue
  nodup : s.pushed.Nodup
  issued : ∀ task ∈ s.pushed, task < s.issued
  checked : ∀ thread task, s.calls thread = .checked task → task < s.issued ∧ task ∉ s.pushed
  distinct : ∀ thread thread' task, s.calls thread = .checked task →
    s.calls thread' = .checked task → thread = thread'
  returning : ∀ thread task, s.calls thread = .pushed task → task ∈ s.pushed
  accepted : ∀ task ∈ s.accepted, task ∈ s.pushed
  runs : ∀ task, s.taken.count task = s.completed.count task + s.runners task

section Step

theorem accounted_start : Accounted (.start W) := by
  refine ⟨rfl, List.nodup_nil, ?_, ?_, ?_, ?_, ?_, fun task ↦ ?_⟩
  · exact fun _ hmem ↦ absurd hmem List.not_mem_nil
  · exact fun _ _ hcall ↦ Call.noConfusion hcall
  · exact fun _ _ _ hcall ↦ Call.noConfusion hcall
  · exact fun _ _ hcall ↦ Call.noConfusion hcall
  · exact fun _ hmem ↦ absurd hmem List.not_mem_nil
  · rw [runners_start]
    rfl

/-- A worker goes on without beginning or ending a task. -/
theorem Accounted.setWorker (h : Accounted s) {w : Fin W} {worker : Worker}
    (hbefore : ∀ task, s.workers w ≠ .running task) (hafter : ∀ task, worker ≠ .running task) :
    Accounted (s.setWorker w worker) :=
  ⟨h.fifo, h.nodup, h.issued, h.checked, h.distinct, h.returning, h.accepted, fun task ↦ by
    rw [runners_setWorker task (hbefore task) (hafter task)]
    exact h.runs task⟩

theorem Accounted.check (h : Accounted s) (thread : Thread W) : Accounted (s.checked thread) := by
  have hcalls (other : Thread W) : (s.checked thread).calls other =
      if other = thread then .checked s.issued else s.calls other :=
    calls_setCall ..
  refine ⟨h.fifo, h.nodup, fun task hmem ↦ Nat.lt_succ_of_lt (h.issued task hmem),
    fun other task hcall ↦ ?_, fun other other' task hcall hcall' ↦ ?_, fun other task hcall ↦ ?_,
    h.accepted, h.runs⟩
  · rw [hcalls] at hcall
    split_ifs at hcall with hother
    · cases hcall
      exact ⟨Nat.lt_succ_self _, fun hmem ↦ Nat.lt_irrefl _ (h.issued _ hmem)⟩
    · obtain ⟨hlt, hfresh⟩ := h.checked other task hcall
      exact ⟨Nat.lt_succ_of_lt hlt, hfresh⟩
  · rw [hcalls] at hcall hcall'
    split_ifs at hcall hcall' with hother hother' hother'
    · rw [hother, hother']
    · cases hcall
      exact absurd (h.checked other' _ hcall').1 (Nat.lt_irrefl _)
    · cases hcall'
      exact absurd (h.checked other _ hcall).1 (Nat.lt_irrefl _)
    · exact h.distinct other other' task hcall hcall'
  · rw [hcalls] at hcall
    split_ifs at hcall
    exact h.returning other task hcall

theorem Accounted.push (h : Accounted s) {thread : Thread W} {task : ℕ}
    (hcall : s.calls thread = .checked task) : Accounted (s.push thread task) := by
  have hcalls (other : Thread W) : (s.push thread task).calls other =
      if other = thread then .pushed task else s.calls other :=
    calls_setCall ..
  have hpushed (other : ℕ) :
      other ∈ (s.push thread task).pushed ↔ other ∈ s.pushed ∨ other = task :=
    List.mem_append.trans (or_congr_right List.mem_singleton)
  obtain ⟨hlt, hfresh⟩ := h.checked thread task hcall
  refine ⟨?_, ?_, fun other hmem ↦ ?_, fun other task' hother ↦ ?_,
    fun other other' task' hother hother' ↦ ?_, fun other task' hother ↦ ?_,
    fun other hmem ↦ (hpushed other).mpr (Or.inl (h.accepted other hmem)), h.runs⟩
  · change s.pushed ++ [task] = s.taken ++ (s.queue ++ [task])
    rw [h.fifo, List.append_assoc]
  · exact List.nodup_append.mpr ⟨h.nodup, List.nodup_singleton task,
      fun other hmem other' hmem' heq ↦
      hfresh (List.mem_singleton.mp hmem' ▸ heq ▸ hmem)⟩
  · rcases (hpushed other).mp hmem with hold | rfl
    · exact h.issued other hold
    · exact hlt
  · rw [hcalls] at hother
    split_ifs at hother with hsame
    obtain ⟨hlt', hfresh'⟩ := h.checked other task' hother
    refine ⟨hlt', fun hmem ↦ ?_⟩
    rcases (hpushed task').mp hmem with hold | rfl
    · exact hfresh' hold
    · exact hsame (h.distinct other thread task' hother hcall)
  · rw [hcalls] at hother hother'
    split_ifs at hother hother'
    exact h.distinct other other' task' hother hother'
  · rw [hcalls] at hother
    split_ifs at hother
    · cases hother
      exact (hpushed task).mpr (Or.inr rfl)
    · exact (hpushed task').mpr (Or.inl (h.returning other task' hother))

theorem Accounted.accept (h : Accounted s) {thread : Thread W} {task : ℕ}
    (hcall : s.calls thread = .pushed task) : Accounted (s.accept thread task) := by
  have hcalls (other : Thread W) : (s.accept thread task).calls other =
      if other = thread then .idle else s.calls other :=
    calls_setCall ..
  refine ⟨h.fifo, h.nodup, h.issued, fun other task' hother ↦ ?_,
    fun other other' task' hother hother' ↦ ?_, fun other task' hother ↦ ?_, fun other hmem ↦ ?_,
    h.runs⟩
  · rw [hcalls] at hother
    split_ifs at hother
    exact h.checked other task' hother
  · rw [hcalls] at hother hother'
    split_ifs at hother hother'
    exact h.distinct other other' task' hother hother'
  · rw [hcalls] at hother
    split_ifs at hother
    exact h.returning other task' hother
  · rcases List.mem_append.mp hmem with hold | hnew
    · exact h.accepted other hold
    · rw [List.mem_singleton.mp hnew]
      exact h.returning thread task hcall

theorem Accounted.take (h : Accounted s) {w : Fin W} {task : ℕ} {rest : List ℕ}
    (hworker : s.workers w = .locked) (hqueue : s.queue = task :: rest) :
    Accounted (s.take w task rest) := by
  refine ⟨?_, h.nodup, h.issued, h.checked, h.distinct, h.returning, h.accepted, fun other ↦ ?_⟩
  · change s.pushed = s.taken ++ [task] ++ rest
    rw [h.fifo, hqueue, List.append_assoc, List.singleton_append]
  · have hbegin := runners_begin (fun task ↦ by rw [hworker]; exact Worker.noConfusion) task other
    change (s.taken ++ [task]).count other =
      s.completed.count other + (s.setWorker w (.running task)).runners other
    rw [hbegin, List.count_append, List.count_singleton, h.runs other, Nat.add_assoc]
    simp only [beq_iff_eq]

theorem Accounted.complete (h : Accounted s) {w : Fin W} {task : ℕ}
    (hworker : s.workers w = .running task) : Accounted (s.complete w task) := by
  refine ⟨h.fifo, h.nodup, h.issued, h.checked, h.distinct, h.returning, h.accepted, fun other ↦ ?_⟩
  have hend : (s.setWorker w .acquiring).runners other + _ = s.runners other :=
    runners_end hworker (fun _ ↦ Worker.noConfusion) other
  change s.taken.count other =
    (s.completed ++ [task]).count other + (s.setWorker w .acquiring).runners other
  rw [List.count_append, List.count_singleton, h.runs other, ← hend]
  simp only [beq_iff_eq]
  omega

theorem Accounted.requestStop (h : Accounted s) : Accounted s.requestStop :=
  ⟨h.fifo, h.nodup, h.issued, h.checked, h.distinct, h.returning, h.accepted, fun task ↦ by
    rw [runners_requestStop]
    exact h.runs task⟩

/-- One step, of any thread. -/
theorem Accounted.step (h : Accounted s) (hstep : Step s s') : Accounted s' := by
  have hidle {w : Fin W} {worker : Worker} (hworker : s.workers w = worker)
      (hnot : ∀ task, worker ≠ .running task) : ∀ task, s.workers w ≠ .running task := by
    rw [hworker]
    exact hnot
  cases hstep with
  | reject thread hable hcall hstop => exact h
  | check thread hable hcall hstop => exact h.check thread
  | push thread task hcall hunlocked => exact h.push hcall
  | notifyNone thread task hcall hnone => exact h.accept hcall
  | notifyOne thread task w hcall hwaiting =>
    exact (h.setWorker (hidle hwaiting fun _ ↦ Worker.noConfusion)
      fun _ ↦ Worker.noConfusion).accept
      hcall
  | requestStop hjoining hcall => exact h.requestStop
  | join hjoining hexited =>
    exact ⟨h.fifo, h.nodup, h.issued, h.checked, h.distinct, h.returning, h.accepted, h.runs⟩
  | wake w hwaiting =>
    exact h.setWorker (hidle hwaiting fun _ ↦ Worker.noConfusion) fun _ ↦ Worker.noConfusion
  | sleep w hworker hunlocked hstop hempty =>
    exact h.setWorker (hidle hworker fun _ ↦ Worker.noConfusion) fun _ ↦ Worker.noConfusion
  | lock w hworker hunlocked hready =>
    exact h.setWorker (hidle hworker fun _ ↦ Worker.noConfusion) fun _ ↦ Worker.noConfusion
  | exit w hworker hstop hempty =>
    exact h.setWorker (hidle hworker fun _ ↦ Worker.noConfusion) fun _ ↦ Worker.noConfusion
  | take w task rest hworker hqueue => exact h.take hworker hqueue
  | crash w hworker hstop hempty =>
    exact h.setWorker (hidle hworker fun _ ↦ Worker.noConfusion) fun _ ↦ Worker.noConfusion
  | complete w task hworker hcall => exact h.complete hworker

/-- Every reachable state. -/
theorem accounted_of_reachable (hreach : Reachable s) : Accounted s :=
  holds_of_reaches accounted_start (fun _ _ _ h ↦ h.step) hreach

end Step

end StudStuff.ThreadPool
