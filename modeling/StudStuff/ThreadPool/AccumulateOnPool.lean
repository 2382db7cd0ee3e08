import StudStuff.ThreadPool.ParallelAccumulate
import StudStuff.ThreadPool.Termination

/-!
# `ParallelAccumulate` on the thread pool

`ParallelAccumulate` takes for granted that the pool runs what it has accepted. Here the caller and
the threads of the pool are one transition system: the caller is the controller of the pool, it
hands its blocks over in calls of `Enqueue`, and a future is ready when a worker has completed its
task. The workers also run whatever else was in the queue, and those tasks may call `Enqueue`.

Every run of the two is a run of the system of `ParallelAccumulate`, in which a block is run when a
worker completes it (`joint_refines`). Until the caller has returned, it or a thread of the pool can
go on, and they cannot do so for ever unless other tasks keep calling `Enqueue` or workers keep
waking up for nothing (`joint_returns`).
-/

set_option autoImplicit false
set_option relaxedAutoImplicit false

namespace StudStuff.ThreadPool

variable {W : ℕ} {s s' : State W}

/-! ### Steps of the pool -/

section Pool

/-- What a step does to the tasks. -/
structure Continues (s s' : State W) : Prop where
  issued : s.issued ≤ s'.issued
  pushed : ∀ task ∈ s.pushed, task ∈ s'.pushed
  checked : ∀ thread task, s.calls thread = .checked task →
    s'.calls thread = .checked task ∨ task ∈ s'.pushed
  completed : s'.completed = s.completed ∨
    ∃ w task, s.workers w = .running task ∧ s'.completed = s.completed ++ [task]

/-- A step that neither begins nor ends anything. -/
theorem Continues.of_eq (hissued : s'.issued = s.issued) (hpushed : s'.pushed = s.pushed)
    (hcalls : s'.calls = s.calls) (hcompleted : s'.completed = s.completed) : Continues s s' :=
  ⟨hissued.ge, fun _ hmem ↦ hpushed ▸ hmem, fun thread _ hcall ↦
    Or.inl ((congrFun hcalls thread).trans hcall), Or.inl hcompleted⟩

/-- A call that is under way goes on. -/
theorem Continues.of_setCall {thread : Thread W} {call : Call}
    (hcalls : s'.calls = (s.setCall thread call).calls) (hissued : s.issued ≤ s'.issued)
    (hpushed : ∀ task ∈ s.pushed, task ∈ s'.pushed)
    (hthread : ∀ task, s.calls thread = .checked task → task ∈ s'.pushed)
    (hcompleted : s'.completed = s.completed) : Continues s s' := by
  refine ⟨hissued, hpushed, fun other task hcall ↦ ?_, Or.inl hcompleted⟩
  rw [hcalls, calls_setCall]
  split_ifs with hother
  · exact Or.inr (hthread task (hother ▸ hcall))
  · exact Or.inl hcall

theorem Step.continues (h : Step s s') : Continues s s' := by
  cases h with
  | reject thread hable hcall hstop => exact .of_eq rfl rfl rfl rfl
  | check thread hable hcall hstop =>
    refine .of_setCall rfl (Nat.le_succ _) (fun _ hmem ↦ hmem) (fun task hchecked ↦ ?_) rfl
    cases hcall.symm.trans hchecked
  | push thread task hcall hunlocked =>
    refine .of_setCall rfl le_rfl (fun _ hmem ↦ List.mem_append_left _ hmem)
      (fun other hchecked ↦ ?_) rfl
    cases hcall.symm.trans hchecked
    exact List.mem_append_right _ (List.mem_singleton_self task)
  | notifyNone thread task hcall hnone =>
    refine .of_setCall rfl le_rfl (fun _ hmem ↦ hmem) (fun other hchecked ↦ ?_) rfl
    cases hcall.symm.trans hchecked
  | notifyOne thread task w hcall hwaiting =>
    refine .of_setCall rfl le_rfl (fun _ hmem ↦ hmem) (fun other hchecked ↦ ?_) rfl
    cases hcall.symm.trans hchecked
  | requestStop hjoining hcall => exact .of_eq rfl rfl rfl rfl
  | join hjoining hexited => exact .of_eq rfl rfl rfl rfl
  | wake w hwaiting => exact .of_eq rfl rfl rfl rfl
  | sleep w hworker hunlocked hstop hempty => exact .of_eq rfl rfl rfl rfl
  | lock w hworker hunlocked hready => exact .of_eq rfl rfl rfl rfl
  | exit w hworker hstop hempty => exact .of_eq rfl rfl rfl rfl
  | take w task rest hworker hqueue => exact .of_eq rfl rfl rfl rfl
  | crash w hworker hstop hempty => exact .of_eq rfl rfl rfl rfl
  | complete w task hworker hcall =>
    exact ⟨le_rfl, fun _ hmem ↦ hmem, fun _ _ hchecked ↦ Or.inl hchecked,
      Or.inr ⟨w, task, hworker, rfl⟩⟩

/-- A thread that goes on neither requests the stop nor begins a call. -/
theorem Step.keeps_idle (h : Step s s') (hadvances : Advances s s') :
    s'.stop = s.stop ∧ ∀ thread, s.calls thread = .idle → s'.calls thread = .idle := by
  have hkept {thread : Thread W} {call call' : Call} (hcall : s.calls thread = call)
      (hbusy : call ≠ .idle) (other : Thread W) (hidle : s.calls other = .idle) :
      (s.setCall thread call').calls other = .idle := by
    rw [calls_setCall, if_neg]
    · exact hidle
    · rintro rfl
      exact hbusy (hcall.symm.trans hidle)
  cases h with
  | reject thread hable hcall hstop => exact ⟨rfl, fun _ hidle ↦ hidle⟩
  | check thread hable hcall hstop => exact absurd hadvances (not_advances_check hcall)
  | push thread task hcall hunlocked => exact ⟨rfl, hkept hcall Call.noConfusion⟩
  | notifyNone thread task hcall hnone => exact ⟨rfl, hkept hcall Call.noConfusion⟩
  | notifyOne thread task w hcall hwaiting => exact ⟨rfl, hkept hcall Call.noConfusion⟩
  | requestStop hjoining hcall => exact absurd hadvances not_advances_requestStop
  | join hjoining hexited => exact ⟨rfl, fun _ hidle ↦ hidle⟩
  | wake w hwaiting => exact ⟨rfl, fun _ hidle ↦ hidle⟩
  | sleep w hworker hunlocked hstop hempty => exact ⟨rfl, fun _ hidle ↦ hidle⟩
  | lock w hworker hunlocked hready => exact ⟨rfl, fun _ hidle ↦ hidle⟩
  | exit w hworker hstop hempty => exact ⟨rfl, fun _ hidle ↦ hidle⟩
  | take w task rest hworker hqueue => exact ⟨rfl, fun _ hidle ↦ hidle⟩
  | crash w hworker hstop hempty => exact ⟨rfl, fun _ hidle ↦ hidle⟩
  | complete w task hworker hcall => exact ⟨rfl, fun _ hidle ↦ hidle⟩

/-- A task is completed only after it was pushed. -/
theorem Accounted.pushed_of_completed (h : Accounted s) {task : ℕ} (hmem : task ∈ s.completed) :
    task ∈ s.pushed := by
  have hruns := h.runs task
  have hpos : 0 < s.completed.count task := List.count_pos_iff.mpr hmem
  have htaken : task ∈ s.taken := List.count_pos_iff.mp (by omega)
  rw [h.fifo]
  exact List.mem_append_left _ htaken

/-- A task that runs has not been completed. -/
theorem Accounted.not_completed (h : Accounted s) {w : Fin W} {task : ℕ}
    (hworker : s.workers w = .running task) : task ∉ s.completed := by
  intro hmem
  have hend : (s.setWorker w .acquiring).runners task + (if task = task then 1 else 0) =
      s.runners task := runners_end hworker (fun _ ↦ Worker.noConfusion) task
  have hruns := h.runs task
  have hpos : 0 < s.completed.count task := List.count_pos_iff.mpr hmem
  have honce : s.pushed.count task ≤ 1 := List.nodup_iff_count_le_one.mp h.nodup task
  rw [h.fifo, List.count_append] at honce
  rw [if_pos rfl] at hend
  omega

/-- A task that was pushed waits in the queue, runs or has been completed. -/
theorem Accounted.place (h : Accounted s) {task : ℕ} (hmem : task ∈ s.pushed) :
    task ∈ s.queue ∨ (∃ w, s.workers w = .running task) ∨ task ∈ s.completed := by
  rw [h.fifo, List.mem_append] at hmem
  rcases hmem with htaken | hqueued
  · have hruns := h.runs task
    have hpos : 0 < s.taken.count task := List.count_pos_iff.mpr htaken
    by_cases hcompleted : task ∈ s.completed
    · exact Or.inr (Or.inr hcompleted)
    · rw [List.count_eq_zero_of_not_mem hcompleted, Nat.zero_add, State.runners,
        Lib.countWhere] at hruns
      obtain ⟨w, hw⟩ := Finset.card_pos.mp (hruns ▸ hpos)
      exact Or.inr (Or.inl ⟨w, (Finset.mem_filter.mp hw).2⟩)
  · exact Or.inl hqueued

/-- A call that is under way can go on, or a worker that keeps the mutex from it. -/
theorem Controlled.exists_call (h : Controlled s) {thread : Thread W}
    (hcall : s.calls thread ≠ .idle) : ∃ s', Step s s' ∧ Advances s s' := by
  cases hthread : s.calls thread with
  | idle => exact absurd hthread hcall
  | checked task =>
    by_cases hunlocked : s.Unlocked
    · exact ⟨_, .push thread task hthread hunlocked,
        advances_call hthread (calls_setCall_self ..) Call.noConfusion Call.noConfusion⟩
    · obtain ⟨w, hlocked⟩ := not_forall_not.mp hunlocked
      exact h.exists_unlock hlocked
  | pushed task => exact exists_notify hthread

/-- While a task that was pushed is not completed, some thread can go on. -/
theorem exists_toward (hW : 0 < W) (hreach : Reachable s) (hstop : s.stop = false) {task : ℕ}
    (hmem : task ∈ s.pushed) (hleft : task ∉ s.completed) : ∃ s', Step s s' ∧ Advances s s' := by
  have hcontrolled := controlled_of_reachable hW hreach
  rcases (accounted_of_reachable hreach).place hmem with hqueued | ⟨w, hrunning⟩ | hcompleted
  · have hqueue : s.queue ≠ [] := List.ne_nil_of_mem hqueued
    have hlives : s.workers ⟨0, hW⟩ ≠ .exited := by
      intro hexited
      cases hstop.symm.trans (hcontrolled.exited _ hexited)
    exact ((wakeful_of_reachable hW hreach).roused (Or.inl hqueue)
      ⟨_, hlives⟩).exists_advance hcontrolled (Or.inl hqueue)
  · by_cases hunlocked : s.Unlocked
    · exact exists_run hunlocked hrunning
    · obtain ⟨w', hlocked⟩ := not_forall_not.mp hunlocked
      exact hcontrolled.exists_unlock hlocked
  · exact absurd hcompleted hleft

end Pool

end StudStuff.ThreadPool

namespace StudStuff.AccumulateOnPool

open Lib ParallelAccumulate

variable {W : ℕ} {T : Type}

/-! ### The caller and the threads -/

/-- The caller, the pool, and the task of each future with the block that it captured. -/
structure Joint (W : ℕ) (T : Type) where
  pool : ThreadPool.State W
  caller : Caller T
  handed : List (ℕ × Block)
  inlineBlock : Option Block

section Steps

variable [AddMonoid T]

/-- The call, on a pool that has been in use. -/
def Joint.start (pool : ThreadPool.State W) (xs : List T) (init : T) : Joint W T where
  pool := pool
  caller := if xs.length = 0 then .returned init else .enqueuing 0 0
  handed := []
  inlineBlock := none

/-- One step of the caller or of the pool. The caller goes on when it is in no call of `Enqueue`. -/
inductive Step (xs : List T) (init : T) : Joint W T → Joint W T → Prop
  /-- The caller calls `Enqueue`, which passes the check of the stop flag. -/
  | enqueue {s : Joint W T} (index blockStart blockEnd : ℕ)
      (hidle : s.pool.calls .controller = .idle) (hstop : s.pool.stop = false)
      (hcaller : s.caller = .enqueuing index blockStart) (hmore : index < numBlocks xs.length - 1)
      (hadvance : advance xs blockStart blockSize = some blockEnd) :
      Step xs init s { s with
        pool := s.pool.checked .controller
        caller := .enqueuing (index + 1) blockEnd
        handed := s.handed ++ [(s.pool.issued, ⟨blockStart, blockEnd⟩)] }
  /-- The end of a block is past the end of the sequence. -/
  | overrun {s : Joint W T} (index blockStart : ℕ) (hidle : s.pool.calls .controller = .idle)
      (hcaller : s.caller = .enqueuing index blockStart) (hmore : index < numBlocks xs.length - 1)
      (hadvance : advance xs blockStart blockSize = none) :
      Step xs init s { s with caller := .pastTheEnd }
  /-- The caller accumulates the last block. -/
  | accumulateLast {s : Joint W T} (index blockStart : ℕ)
      (hidle : s.pool.calls .controller = .idle)
      (hcaller : s.caller = .enqueuing index blockStart)
      (hdone : ¬index < numBlocks xs.length - 1) :
      Step xs init s { s with
        caller := .collecting 0 (accumulateBlock xs ⟨blockStart, xs.length⟩) init
        inlineBlock := some ⟨blockStart, xs.length⟩ }
  /-- `get` returns what the task of the future has computed. -/
  | collect {s : Joint W T} (index task : ℕ) (block : Block) (lastResult result : T)
      (hidle : s.pool.calls .controller = .idle)
      (hcaller : s.caller = .collecting index lastResult result)
      (hmore : index < numBlocks xs.length - 1) (hfuture : s.handed[index]? = some (task, block))
      (hready : task ∈ s.pool.completed) :
      Step xs init s { s with
        caller := .collecting (index + 1) lastResult (result + accumulateBlock xs block) }
  /-- The caller returns. -/
  | finish {s : Joint W T} (index : ℕ) (lastResult result : T)
      (hidle : s.pool.calls .controller = .idle)
      (hcaller : s.caller = .collecting index lastResult result)
      (hdone : ¬index < numBlocks xs.length - 1) :
      Step xs init s { s with caller := .returned (result + lastResult) }
  /-- The pool, also in a call of `Enqueue` that the caller has begun. -/
  | pool {s : Joint W T} (pool : ThreadPool.State W) (hstep : ThreadPool.Step s.pool pool)
      (hstop : pool.stop = s.pool.stop)
      (hidle : s.pool.calls .controller = .idle → pool.calls .controller = .idle) :
      Step xs init s { s with pool := pool }

/-- The states that are reached from a call on a pool. -/
def Reaches (pool : ThreadPool.State W) (xs : List T) (init : T) (s : Joint W T) : Prop :=
  Relation.ReflTransGen (Step xs init) (.start pool xs init) s

/-- A future is ready when the pool has completed its task. -/
def Joint.futures (s : Joint W T) (xs : List T) (index : ℕ) : Option T :=
  s.handed[index]?.bind fun entry ↦
    if entry.1 ∈ s.pool.completed then some (accumulateBlock xs entry.2) else none

/-- What `ParallelAccumulate` knows of the pool. -/
def Joint.view (s : Joint W T) (xs : List T) : ParallelAccumulate.State T where
  caller := s.caller
  handed := s.handed.map Prod.snd
  futures := s.futures xs
  inlineBlock := s.inlineBlock

end Steps

/-! ### The invariant -/

section Invariant

variable [AddMonoid T] {pool : ThreadPool.State W} {xs : List T} {init : T} {s s' : Joint W T}

/-- A pool on which `ParallelAccumulate` is called. -/
structure Ready (pool : ThreadPool.State W) : Prop where
  reachable : ThreadPool.Reachable pool
  running : pool.stop = false
  idle : pool.calls .controller = .idle

/-- Every future has a task of its own, which was pushed or is about to be. -/
structure Coupled (s : Joint W T) : Prop where
  reachable : ThreadPool.Reachable s.pool
  running : s.pool.stop = false
  issued : ∀ entry ∈ s.handed, entry.1 < s.pool.issued
  nodup : (s.handed.map Prod.fst).Nodup
  pushed : ∀ entry ∈ s.handed,
    s.pool.calls .controller = .checked entry.1 ∨ entry.1 ∈ s.pool.pushed

omit [AddMonoid T] in
/-- The caller goes on without the pool. -/
theorem Coupled.of_eq (h : Coupled s) (hpool : s'.pool = s.pool) (hhanded : s'.handed = s.handed) :
    Coupled s' := by
  obtain ⟨pool', caller', handed', inlineBlock'⟩ := s'
  obtain rfl : pool' = s.pool := hpool
  obtain rfl : handed' = s.handed := hhanded
  exact ⟨h.reachable, h.running, h.issued, h.nodup, h.pushed⟩

omit [AddMonoid T] in
theorem coupled_start (hready : Ready pool) : Coupled (.start pool xs init) :=
  ⟨hready.reachable, hready.running, fun _ hmem ↦ absurd hmem List.not_mem_nil, List.nodup_nil,
    fun _ hmem ↦ absurd hmem List.not_mem_nil⟩

omit [AddMonoid T] in
/-- The caller calls `Enqueue`: the task is a new one. -/
theorem Coupled.enqueue (h : Coupled s) (hW : 0 < W) (hidle : s.pool.calls .controller = .idle)
    (caller' : Caller T) (block : Block) :
    Coupled { s with
      pool := s.pool.checked .controller
      caller := caller'
      handed := s.handed ++ [(s.pool.issued, block)] } := by
  have hcontrolled := ThreadPool.controlled_of_reachable hW h.reachable
  have hjoining : s.pool.joining = false := by
    refine Bool.eq_false_of_not_eq_true fun hjoins ↦ ?_
    cases h.running.symm.trans (hcontrolled.joining hjoins)
  refine ⟨h.reachable.tail (.check .controller hjoining hidle h.running), h.running,
    fun entry hmem ↦ ?_, ?_, fun entry hmem ↦ ?_⟩
  · rcases List.mem_append.mp hmem with hold | hnew
    · exact Nat.lt_succ_of_lt (h.issued entry hold)
    · rw [List.mem_singleton.mp hnew]
      exact Nat.lt_succ_self _
  · rw [List.map_append, List.map_singleton]
    refine List.nodup_append.mpr ⟨h.nodup, List.nodup_singleton _, fun task hmem other hother ↦ ?_⟩
    obtain ⟨entry, hentry, rfl⟩ := List.mem_map.mp hmem
    rw [List.mem_singleton.mp hother]
    exact (h.issued entry hentry).ne
  · rcases List.mem_append.mp hmem with hold | hnew
    · rcases h.pushed entry hold with hchecked | hpushed
      · cases hidle.symm.trans hchecked
      · exact Or.inr hpushed
    · have hcalls : (s.pool.checked .controller).calls .controller = .checked s.pool.issued :=
        ThreadPool.calls_setCall_self s.pool .controller (.checked s.pool.issued)
      rw [List.mem_singleton.mp hnew]
      exact Or.inl hcalls

theorem Coupled.step (h : Coupled s) (hW : 0 < W) (hstep : Step xs init s s') : Coupled s' := by
  cases hstep with
  | enqueue index blockStart blockEnd hidle hstop hcaller hmore hadvance =>
    exact h.enqueue hW hidle _ _
  | overrun index blockStart hidle hcaller hmore hadvance => exact h.of_eq rfl rfl
  | accumulateLast index blockStart hidle hcaller hdone => exact h.of_eq rfl rfl
  | collect index task block lastResult result hidle hcaller hmore hfuture hready =>
    exact h.of_eq rfl rfl
  | finish index lastResult result hidle hcaller hdone => exact h.of_eq rfl rfl
  | pool pool hstep hstop hidle =>
    have hcontinues := hstep.continues
    refine ⟨h.reachable.tail hstep, hstop.trans h.running, fun entry hmem ↦
      Nat.lt_of_lt_of_le (h.issued entry hmem) hcontinues.issued, h.nodup, fun entry hmem ↦ ?_⟩
    rcases h.pushed entry hmem with hchecked | hpushed
    · exact hcontinues.checked _ _ hchecked
    · exact Or.inr (hcontinues.pushed _ hpushed)

theorem coupled_of_reaches (hW : 0 < W) (hready : Ready pool) (h : Reaches pool xs init s) :
    Coupled s :=
  holds_of_reaches (coupled_start hready) (fun _ _ _ hcoupled ↦ hcoupled.step hW) h

end Invariant

/-! ### The simulation -/

section Simulation

variable [AddMonoid T] {pool : ThreadPool.State W} {xs : List T} {init : T} {s s' : Joint W T}

/-- A future that is not ready yet belongs to a task that is not completed. -/
theorem futures_eq_none {index task : ℕ} {block : Block}
    (hfuture : s.handed[index]? = some (task, block)) (hleft : task ∉ s.pool.completed) :
    s.futures xs index = none := by
  rw [Joint.futures, hfuture, Option.bind_some, if_neg hleft]

theorem futures_eq_some {index task : ℕ} {block : Block}
    (hfuture : s.handed[index]? = some (task, block)) (hready : task ∈ s.pool.completed) :
    s.futures xs index = some (accumulateBlock xs block) := by
  rw [Joint.futures, hfuture, Option.bind_some, if_pos hready]

/-- A new future is not ready. -/
theorem Coupled.view_enqueue (h : Coupled s) (index blockStart blockEnd : ℕ) :
    Joint.view { s with
        pool := s.pool.checked .controller
        caller := .enqueuing (index + 1) blockEnd
        handed := s.handed ++ [(s.pool.issued, ⟨blockStart, blockEnd⟩)] } xs =
      { s.view xs with
        caller := .enqueuing (index + 1) blockEnd
        handed := (s.view xs).handed ++ [⟨blockStart, blockEnd⟩] } := by
  have haccounted := ThreadPool.accounted_of_reachable h.reachable
  have hnew : s.pool.issued ∉ s.pool.completed := fun hmem ↦
    Nat.lt_irrefl _ (haccounted.issued _ (haccounted.pushed_of_completed hmem))
  rw [Joint.view, Joint.view]
  simp only [List.map_append, List.map_singleton, ParallelAccumulate.State.mk.injEq, true_and,
    and_true]
  funext other
  rw [Joint.futures, Joint.futures]
  dsimp only
  rcases Nat.lt_trichotomy other s.handed.length with hlt | rfl | hgt
  · rw [List.getElem?_append_left hlt]
    rfl
  · rw [List.getElem?_concat_length, List.getElem?_eq_none le_rfl]
    exact if_neg hnew
  · rw [List.getElem?_eq_none, List.getElem?_eq_none hgt.le]
    · rfl
    · rw [List.length_append]
      exact hgt

/-- The task of a future is completed. -/
theorem Coupled.futures_complete (h : Coupled s) {pool' : ThreadPool.State W} {index task : ℕ}
    {block : Block} (hfuture : s.handed[index]? = some (task, block))
    (hcompleted : pool'.completed = s.pool.completed ++ [task]) :
    Joint.futures { s with pool := pool' } xs =
      Function.update (s.futures xs) index (some (accumulateBlock xs block)) := by
  funext other
  by_cases hother : other = index
  · have hready : task ∈ pool'.completed := hcompleted ▸ List.mem_append_right _ (by simp)
    rw [hother, Function.update_self]
    exact futures_eq_some (s := { s with pool := pool' }) hfuture hready
  · rw [Function.update_of_ne hother, Joint.futures, Joint.futures]
    dsimp only
    cases hentry : s.handed[other]? with
    | none => rfl
    | some entry =>
      have hne : entry.1 ≠ task := by
        intro heq
        have hindex : index < (s.handed.map Prod.fst).length := by
          rw [List.length_map]
          exact (List.getElem?_eq_some_iff.mp hfuture).1
        refine hother ((List.getElem?_inj hindex h.nodup).mp ?_).symm
        rw [List.getElem?_map, List.getElem?_map, hfuture, hentry, Option.map_some, Option.map_some,
          heq]
      simp only [Option.bind_some, hcompleted, List.mem_append, List.mem_singleton, hne, or_false]

/-- A task that belongs to no future is completed. -/
theorem futures_other {pool' : ThreadPool.State W} {task : ℕ}
    (hother : ∀ entry ∈ s.handed, entry.1 ≠ task)
    (hcompleted : pool'.completed = s.pool.completed ++ [task]) :
    Joint.futures { s with pool := pool' } xs = s.futures xs := by
  funext index
  rw [Joint.futures, Joint.futures]
  dsimp only
  cases hentry : s.handed[index]? with
  | none => rfl
  | some entry =>
    have hne : entry.1 ≠ task := hother entry (List.mem_of_getElem? hentry)
    simp only [Option.bind_some, hcompleted, List.mem_append, List.mem_singleton, hne, or_false]

/-- A step of the pool runs the block of at most one future. -/
theorem Coupled.view_pool (h : Coupled s) {pool' : ThreadPool.State W}
    (hstep : ThreadPool.Step s.pool pool') :
    Joint.view { s with pool := pool' } xs = s.view xs ∨
      ParallelAccumulate.Step xs init (s.view xs) (Joint.view { s with pool := pool' } xs) := by
  have hview {futures : ℕ → Option T} (heq : Joint.futures { s with pool := pool' } xs = futures) :
      Joint.view { s with pool := pool' } xs = { s.view xs with futures := futures } := by
    rw [← heq]
    rfl
  rcases hstep.continues.completed with hsame | ⟨w, task, hworker, hcompleted⟩
  · refine Or.inl (hview (funext fun index ↦ ?_))
    rw [Joint.futures, Joint.futures, hsame]
  · by_cases hmem : ∃ entry ∈ s.handed, entry.1 = task
    · obtain ⟨⟨_, block⟩, hentry, rfl⟩ := hmem
      obtain ⟨index, hfuture⟩ := List.mem_iff_getElem?.mp hentry
      have hleft : _ ∉ s.pool.completed :=
        (ThreadPool.accounted_of_reachable h.reachable).not_completed hworker
      have hhanded : (s.view xs).handed[index]? = some block := by
        rw [Joint.view, List.getElem?_map, hfuture]
        rfl
      rw [hview (h.futures_complete hfuture hcompleted)]
      exact Or.inr (.run index block hhanded (futures_eq_none hfuture hleft))
    · refine Or.inl (hview (futures_other (fun entry hentry heq ↦ ?_) hcompleted))
      exact hmem ⟨entry, hentry, heq⟩

/-- Every step of the two is a step of the system of `ParallelAccumulate`, or changes nothing
there. -/
theorem Coupled.simulates (h : Coupled s) (hstep : Step xs init s s') :
    s'.view xs = s.view xs ∨ ParallelAccumulate.Step xs init (s.view xs) (s'.view xs) := by
  cases hstep with
  | enqueue index blockStart blockEnd hidle hstop hcaller hmore hadvance =>
    rw [h.view_enqueue]
    exact Or.inr (.enqueue index blockStart blockEnd hcaller hmore hadvance)
  | overrun index blockStart hidle hcaller hmore hadvance =>
    exact Or.inr (.overrun index blockStart hcaller hmore hadvance)
  | accumulateLast index blockStart hidle hcaller hdone =>
    exact Or.inr (.accumulateLast index blockStart hcaller hdone)
  | collect index task block lastResult result hidle hcaller hmore hfuture hready =>
    exact Or.inr (.collect index lastResult result _ hcaller hmore
      (futures_eq_some hfuture hready))
  | finish index lastResult result hidle hcaller hdone =>
    exact Or.inr (.finish index lastResult result hcaller hdone)
  | pool pool' hstep hstop hidle => exact h.view_pool hstep

/-- However the caller and the threads of the pool interleave, the caller sees a pool that runs each
block once and delivers its result. -/
theorem joint_refines (hW : 0 < W) (hready : Ready pool) (h : Reaches pool xs init s) :
    ParallelAccumulate.Reachable xs init (s.view xs) :=
  reaches_of_simulation (Joint.view · xs)
    (fun _ _ hreaches hstep ↦ (coupled_of_reaches hW hready hreaches).simulates hstep) h

end Simulation

/-! ### The caller returns -/

section Progress

variable [AddMonoid T] {pool : ThreadPool.State W} {xs : List T} {init : T} {s s' : Joint W T}

/-- The caller goes on, or a thread of the pool does. Neither a call of `Enqueue` that another task
begins nor a spurious wake-up counts. -/
def Proceeds (xs : List T) (init : T) (s s' : Joint W T) : Prop :=
  Step xs init s s' ∧ (s'.caller ≠ s.caller ∨ ThreadPool.Advances s.pool s'.pool)

/-- What is left to do for the caller and the pool. A call of `Enqueue` makes more work for the
pool. -/
def Joint.work (s : Joint W T) (xs : List T) : ℕ :=
  7 * callerSteps (numBlocks xs.length - 1) s.caller + s.pool.work

theorem Proceeds.work_lt (h : Proceeds xs init s s') : s'.work xs < s.work xs := by
  obtain ⟨hstep, hgoes⟩ := h
  cases hstep with
  | enqueue index blockStart blockEnd hidle hstop hcaller hmore hadvance =>
    have hwork : (s.pool.checked .controller).work + 0 = s.pool.work + 6 :=
      ThreadPool.work_setCall hidle (.checked s.pool.issued)
    simp only [Joint.work, hcaller, callerSteps]
    omega
  | overrun index blockStart hidle hcaller hmore hadvance =>
    simp only [Joint.work, hcaller, callerSteps]
    omega
  | accumulateLast index blockStart hidle hcaller hdone =>
    simp only [Joint.work, hcaller, callerSteps]
    omega
  | collect index task block lastResult result hidle hcaller hmore hfuture hready =>
    simp only [Joint.work, hcaller, callerSteps]
    omega
  | finish index lastResult result hidle hcaller hdone =>
    simp only [Joint.work, hcaller, callerSteps]
    omega
  | pool pool' hstep hstop hidle =>
    have hadvances : ThreadPool.Advances s.pool pool' := hgoes.resolve_left (absurd rfl)
    exact Nat.add_lt_add_left (ThreadPool.work_lt hstep hadvances) _

/-- A thread of the pool goes on. -/
theorem exists_proceeds_pool
    (h : ∃ pool', ThreadPool.Step s.pool pool' ∧ ThreadPool.Advances s.pool pool') :
    ∃ s', Proceeds xs init s s' := by
  obtain ⟨pool', hstep, hadvances⟩ := h
  obtain ⟨hstop, hidle⟩ := hstep.keeps_idle hadvances
  exact ⟨_, .pool pool' hstep hstop (hidle .controller), Or.inr hadvances⟩

/-- Until the caller has returned, it can go on or waits for a thread that can. -/
theorem Coupled.exists_proceeds (h : Coupled s) (hW : 0 < W)
    (hview : ParallelAccumulate.Invariant xs init (s.view xs)) :
    (∃ s', Proceeds xs init s s') ∨ s.caller = .returned (accumulate xs init) := by
  have hcontrolled := ThreadPool.controlled_of_reachable hW h.reachable
  have hgoes {s' : Joint W T} {caller caller' : Caller T} (hstep : Step xs init s s')
      (hcaller : s.caller = caller) (hcaller' : s'.caller = caller') (hne : caller' ≠ caller) :
      ∃ s', Proceeds xs init s s' := by
    refine ⟨s', hstep, Or.inl ?_⟩
    rwa [hcaller, hcaller']
  by_cases hidle : s.pool.calls .controller = .idle
  · cases hview.caller with
    | empty hcaller hxs =>
      right
      rw [hxs]
      exact hcaller
    | returned hpos hcaller => exact Or.inr hcaller
    | enqueuing index hcaller hpos hindex =>
      left
      by_cases hmore : index < numBlocks xs.length - 1
      · refine hgoes (.enqueue index _ _ hidle h.running hcaller hmore (advance_block hpos hmore))
          hcaller rfl ?_
        simp
      · refine hgoes (.accumulateLast index _ hidle hcaller hmore) hcaller rfl ?_
        simp
    | collecting index hpos hindex hcaller hhanded =>
      left
      by_cases hmore : index < numBlocks xs.length - 1
      · have hlength : index < s.handed.length := by
          have hcount : (s.handed.map Prod.snd).length = numBlocks xs.length - 1 := by
            rw [show s.handed.map Prod.snd = _ from hhanded, List.length_map, List.length_range]
          rwa [← hcount, List.length_map] at hmore
        obtain ⟨⟨task, block⟩, hfuture⟩ : ∃ entry, s.handed[index]? = some entry :=
          ⟨_, List.getElem?_eq_getElem hlength⟩
        by_cases hready : task ∈ s.pool.completed
        · refine hgoes (.collect index task block _ _ hidle hcaller hmore hfuture hready)
            hcaller rfl ?_
          simp
        · rcases h.pushed _ (List.mem_of_getElem? hfuture) with hchecked | hpushed
          · cases hidle.symm.trans hchecked
          · exact exists_proceeds_pool
              (ThreadPool.exists_toward hW h.reachable h.running hpushed hready)
      · refine hgoes (.finish index _ _ hidle hcaller hmore) hcaller rfl ?_
        simp
  · exact Or.inl (exists_proceeds_pool (hcontrolled.exists_call hidle))

/-- On any pool that has not been stopped, the caller returns nothing but what `std::accumulate`
returns. As long as it has not returned, it or a thread of the pool can go on, and there is no end
of that only when other tasks call `Enqueue` again and again or workers wake up spuriously. -/
theorem joint_returns (hW : 0 < W) (hready : Ready pool) (h : Reaches pool xs init s) :
    ((∃ s', Proceeds xs init s s') ∨ s.caller = .returned (accumulate xs init)) ∧
      (∀ result, s.caller = .returned result → result = accumulate xs init) ∧
      ¬∃ run : ℕ → Joint W T, run 0 = s ∧ ∀ n, Proceeds xs init (run n) (run (n + 1)) := by
  have hinvariant : ParallelAccumulate.Invariant xs init (s.view xs) :=
    (joint_refines hW hready h).invariant
  exact ⟨(coupled_of_reaches hW hready h).exists_proceeds hW hinvariant,
    fun _ hresult ↦ (hinvariant.of_returned hresult).1,
    not_infinite_run (Joint.work · xs) fun _ _ _ hstep ↦ hstep.work_lt⟩

/-- Two workers and a sequence of three blocks. The caller has collected the first block while the
second worker runs the second one. -/
theorem exists_collected : ∃ s : Joint 2 ℕ, Reaches (.start 2) (List.replicate 60 1) 0 s ∧
    s.caller = .collecting 1 10 25 ∧ s.pool.completed = [0] ∧ s.pool.workers 1 = .running 1 := by
  have h₀ : Reaches (.start 2) (List.replicate 60 1) 0 (.start (.start 2) _ _) := .refl
  have h₁ := h₀.tail (.enqueue 0 0 25 rfl rfl rfl (by decide) rfl)
  have h₂ := h₁.tail (.pool _ (.push .controller 0 rfl (by decide)) rfl fun _ ↦ by contradiction)
  have h₃ := h₂.tail (.pool _ (.notifyNone .controller 0 rfl (by decide)) rfl fun _ ↦ rfl)
  have h₄ := h₃.tail (.pool _ (.lock 0 rfl (by decide) (Or.inl (List.cons_ne_nil 0 []))) rfl id)
  have h₅ := h₄.tail (.pool _ (.take 0 0 [] rfl rfl) rfl id)
  have h₆ := h₅.tail (.enqueue 1 25 50 rfl rfl rfl (by decide) rfl)
  have h₇ := h₆.tail (.pool _ (.push .controller 1 rfl (by decide)) rfl fun _ ↦ by contradiction)
  have h₈ := h₇.tail (.pool _ (.notifyNone .controller 1 rfl (by decide)) rfl fun _ ↦ rfl)
  have h₉ := h₈.tail (.accumulateLast 2 50 rfl rfl (by decide))
  have h₁₀ := h₉.tail (.pool _ (.lock 1 rfl (by decide) (Or.inl (List.cons_ne_nil 1 []))) rfl id)
  have h₁₁ := h₁₀.tail (.pool _ (.take 1 1 [] rfl rfl) rfl id)
  have h₁₂ := h₁₁.tail (.pool _ (.complete 0 0 rfl rfl) rfl id)
  have h₁₃ := h₁₂.tail
    (.collect 0 0 ⟨0, 25⟩ _ _ rfl rfl (by decide) rfl (List.mem_singleton_self 0))
  exact ⟨_, h₁₃, rfl, rfl, rfl⟩

/-- What the caller sees there. -/
theorem joint_refines_collected : ∃ s : Joint 2 ℕ,
    s.caller = .collecting 1 10 25 ∧ s.pool.completed = [0] ∧ s.pool.workers 1 = .running 1 ∧
      ParallelAccumulate.Reachable (List.replicate 60 1) 0 (s.view (List.replicate 60 1)) := by
  obtain ⟨s, hreaches, hcaller, hcompleted, hworker⟩ := exists_collected
  exact ⟨s, hcaller, hcompleted, hworker,
    joint_refines Nat.two_pos ⟨.refl, rfl, rfl⟩ hreaches⟩

/-- The caller does not wait there for ever. -/
theorem joint_returns_collected : ∃ s : Joint 2 ℕ,
    s.caller = .collecting 1 10 25 ∧ s.pool.completed = [0] ∧ s.pool.workers 1 = .running 1 ∧
      ((∃ s', Proceeds (List.replicate 60 1) 0 s s') ∨
        s.caller = .returned (accumulate (List.replicate 60 1) 0)) ∧
      (∀ result, s.caller = .returned result → result = accumulate (List.replicate 60 1) 0) ∧
      ¬∃ run : ℕ → Joint 2 ℕ, run 0 = s ∧
        ∀ n, Proceeds (List.replicate 60 1) 0 (run n) (run (n + 1)) := by
  obtain ⟨s, hreaches, hcaller, hcompleted, hworker⟩ := exists_collected
  exact ⟨s, hcaller, hcompleted, hworker,
    joint_returns Nat.two_pos ⟨.refl, rfl, rfl⟩ hreaches⟩

end Progress

end StudStuff.AccumulateOnPool
