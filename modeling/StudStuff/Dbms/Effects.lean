import StudStuff.Dbms.UnitOfWork

/-!
# What the members of a unit of work do

`Effect` says that of all units of work and all connections only one of each changed, and to what.
Every member of `PostgresUnitOfWork` has one lemma here, which says what it leaves behind when it
returns and when it throws.
-/

set_option autoImplicit false
set_option relaxedAutoImplicit false

namespace StudStuff.Dbms

open Lib

variable {w w' w'' : World} {name c : ℕ} {u u' : UnitOfWork} {k k' : Connection}

/-! ### Changes of the world -/

/-- Only one unit of work and one connection changed, to the given ones. -/
structure Effect (name : ℕ) (u : UnitOfWork) (c : ℕ) (k : Connection) (w w' : World) : Prop where
  unit : w'.units.cell name = some u
  units : ∀ other ≠ name, w'.units.cell other = w.units.cell other
  connection : w'.connections c = k
  connections : ∀ other ≠ c, w'.connections other = w.connections other
  failures : w'.failures = w.failures

section Effect

theorem Effect.refl (hcell : w.units.cell name = some u) :
    Effect name u c (w.connections c) w w :=
  ⟨hcell, fun _ _ ↦ rfl, rfl, fun _ _ ↦ rfl, rfl⟩

theorem Effect.trans (h : Effect name u c k w w') (h' : Effect name u' c k' w' w'') :
    Effect name u' c k' w w'' :=
  ⟨h'.unit, fun other hother ↦ (h'.units other hother).trans (h.units other hother),
    h'.connection, fun other hother ↦
      (h'.connections other hother).trans (h.connections other hother),
    h'.failures.trans h.failures⟩

theorem Effect.called (h : Effect name u c k w w') : Effect name u c k w w'.called :=
  ⟨h.unit, h.units, h.connection, h.connections, h.failures⟩

theorem Effect.setUnit (h : Effect name u c k w w') (u' : UnitOfWork) :
    Effect name u' c k w (w'.setUnit name u') :=
  ⟨if_pos rfl, fun other hother ↦ (if_neg hother).trans (h.units other hother), h.connection,
    h.connections, h.failures⟩

theorem Effect.setConnection (h : Effect name u c k w w') (k' : Connection) :
    Effect name u c k' w (w'.setConnection c k') :=
  ⟨h.unit, h.units, Function.update_self .., fun other hother ↦
    (Function.update_of_ne hother ..).trans (h.connections other hother), h.failures⟩

/-- A work is begun on the connection. -/
theorem Effect.opened (h : Effect name u c k w w') :
    Effect name u c { k with work := some ⟨w'.begun, w'.clock w'.begun, k.tables⟩ } w
      (w'.opened c) := by
  rw [← h.connection]
  exact ⟨h.unit, h.units, Function.update_self .., fun other hother ↦
    (Function.update_of_ne hother ..).trans (h.connections other hother), h.failures⟩

/-- A work is closed, which is the one that is open on the connection if there is one. -/
theorem Effect.closed (h : Effect name u c k w w') {number : ℕ}
    (hwork : ∀ transaction, k.work = some transaction → transaction.number = number) :
    Effect name u c { k with work := none } w (w'.closed (some ⟨c, number⟩)) := by
  cases hk : k.work with
  | none =>
    have hclosed : w'.open? ⟨c, number⟩ = none := by
      simp [World.open?, h.connection, hk]
    have hsame : { k with work := none } = k := by
      rw [← hk]
    rw [World.closed, hclosed, hsame]
    exact h
  | some transaction =>
    have hopen : w'.open? ⟨c, number⟩ = some transaction := by
      simp [World.open?, h.connection, hk, hwork transaction hk]
    rw [World.closed, hopen]
    simp only [h.connection]
    exact h.setConnection _

end Effect

/-! ### Exceptions -/

section Exceptions

variable {α : Type} {program : DbM α} {handler : String → DbM α} {returns : α → World → Prop}
  {stops : Stop → World → Prop} {after : World → Prop}

/-- The program stops with an exception, in a state with a property. -/
def Throws (after : World → Prop) (stop : Stop) (w : World) : Prop :=
  (∃ what, stop = .thrown what) ∧ after w

theorem Meets.raise {what : String} (h : after w) :
    Meets (raise what : DbM α) returns (Throws after) w :=
  Lib.Meets.throw ⟨⟨what, rfl⟩, h⟩

/-- The rule of `catch (const std::exception &e)`. -/
theorem Meets.catchException (h : Meets program returns (Throws after) w)
    (hhandler : ∀ what w', after w' → Meets (handler what) returns stops w') :
    Meets (catchException program handler) returns stops w := by
  refine Lib.Meets.catching h ?_
  rintro stop w' ⟨⟨what, rfl⟩, hafter⟩
  exact hhandler what w' hafter

end Exceptions

/-! ### Calls -/

section Calls

theorem call_ok (h : w.failures w.calls = none) : call w = .ok () w.called := by
  rw [call, h]

theorem call_error {what : String} (h : w.failures w.calls = some what) :
    call w = .error (.thrown what) w.called := by
  rw [call, h]

theorem openWork_ok (h : w.failures w.calls = none) (hwork : (w.connections c).work = none) :
    openWork c w = .ok ⟨c, w.begun⟩ (w.called.opened c) := by
  unfold openWork
  rw [bind_ok (call_ok h), bind_ok (get_apply _), if_neg]
  · rfl
  · rw [World.called, hwork]
    exact Bool.false_ne_true

/-- A work is refused when the call fails or when the connection has an open one. -/
theorem openWork_error (h : w.failures w.calls ≠ none ∨ (w.connections c).work ≠ none) :
    ∃ what, openWork c w = .error (.thrown what) w.called := by
  cases hcall : w.failures w.calls with
  | some what => exact ⟨what, bind_error (call_error hcall)⟩
  | none =>
    refine ⟨"Started new transaction while transaction was still active.", ?_⟩
    unfold openWork
    rw [bind_ok (call_ok hcall), bind_ok (get_apply _), if_pos]
    · rfl
    · exact Option.isSome_iff_ne_none.mpr (h.resolve_left (· hcall))

theorem readUnit_apply (hcell : w.units.cell name = some u) : readUnit name w = .ok u w := by
  rw [readUnit, hcell]

theorem modifyUnit_apply (hcell : w.units.cell name = some u)
    (change : UnitOfWork → UnitOfWork) :
    modifyUnit name change w = .ok () (w.setUnit name (change u)) := by
  rw [modifyUnit, hcell]

theorem setUnit_setUnit (w : World) (name : ℕ) (u u' : UnitOfWork) :
    (w.setUnit name u).setUnit name u' = w.setUnit name u' := by
  rw [World.setUnit, World.setUnit, World.setUnit, Heap.store_store]

theorem cell_setUnit (w : World) (name : ℕ) (u : UnitOfWork) :
    (w.setUnit name u).units.cell name = some u :=
  if_pos rfl

end Calls

/-! ### `txn_` and `Cleanup` -/

section Cleanup

open UnitOfWork

theorem assignTxn_apply (hcell : w.units.cell name = some u) (txn : Option Work) :
    assignTxn name txn w = .ok () ((w.setUnit name { u with txn := txn }).closed u.txn) := by
  unfold assignTxn
  rw [bind_ok (readUnit_apply hcell), bind_ok (modifyUnit_apply hcell _)]
  rfl

/-- The fields that `Cleanup` leaves. -/
def UnitOfWork.cleaned (u : UnitOfWork) : UnitOfWork where
  conn := u.conn
  txn := none
  userRepo := none
  postRepo := none
  tagRepo := none
  commentRepo := u.commentRepo
  isActive := false

/-- `Cleanup` clears the fields and closes the work. -/
theorem cleanup_apply (hcell : w.units.cell name = some u) :
    cleanup name w = .ok () ((w.setUnit name u.cleaned).closed u.txn) := by
  unfold cleanup
  rw [bind_ok (modifyUnit_apply hcell _), bind_ok (modifyUnit_apply (cell_setUnit ..) _),
    setUnit_setUnit, assignTxn_apply (cell_setUnit ..), setUnit_setUnit]
  rfl

/-- `Cleanup` on a unit of work that owns the work of its connection. -/
theorem Effect.cleanup (h : Effect name u c k w w') {number : ℕ} (htxn : u.txn = some ⟨c, number⟩)
    (hwork : ∀ transaction, k.work = some transaction → transaction.number = number) :
    ∃ w'', UnitOfWork.cleanup name w' = .ok () w'' ∧
      Effect name u.cleaned c { k with work := none } w w'' := by
  refine ⟨_, cleanup_apply h.unit, ?_⟩
  rw [htxn]
  exact (h.setUnit u.cleaned).closed hwork

/-- `Cleanup` on a unit of work that owns no work. -/
theorem Effect.cleanup_none (h : Effect name u c k w w') (htxn : u.txn = none) :
    ∃ w'', UnitOfWork.cleanup name w' = .ok () w'' ∧ Effect name u.cleaned c k w w'' := by
  refine ⟨_, cleanup_apply h.unit, ?_⟩
  rw [htxn]
  exact h.setUnit u.cleaned

end Cleanup

/-! ### `Begin` -/

section Begin

open UnitOfWork

/-- The transaction that a work has when it is begun. -/
def World.transaction (w : World) (c : ℕ) : OpenWork :=
  ⟨w.begun, w.clock w.begun, (w.connections c).tables⟩

/-- The fields of a unit of work whose `Begin` returned. -/
def UnitOfWork.started (u : UnitOfWork) (work : Work) : UnitOfWork where
  conn := u.conn
  txn := some work
  userRepo := some work
  postRepo := some work
  tagRepo := some work
  commentRepo := u.commentRepo
  isActive := true

/-- A unit of work that owns the transaction of its connection, as far as `Begin` got. -/
structure Holds (name c : ℕ) (w w' : World) (u : UnitOfWork) : Prop where
  conn : u.conn = some c
  txn : u.txn = some ⟨c, w.begun⟩
  effect : Effect name u c { w.connections c with work := some (w.transaction c) } w w'

/-- One repository is made, or the call for it throws. -/
theorem Holds.makeRepo (h : Holds name c w w' u) (store : Option Work → UnitOfWork → UnitOfWork)
    (hconn : (store u.txn u).conn = u.conn) (htxn : (store u.txn u).txn = u.txn) :
    Meets (makeRepo name store)
      (fun _ w'' ↦ w.failures w'.calls = none ∧ w''.calls = w'.calls + 1 ∧
        Holds name c w w'' (store u.txn u))
      (Throws fun w'' ↦ w.failures w'.calls ≠ none ∧ Holds name c w w'' u) w' := by
  cases hcall : w.failures w'.calls with
  | some what =>
    exact .of_error (bind_error (call_error (h.effect.failures ▸ hcall)))
      ⟨⟨what, rfl⟩, Option.some_ne_none what, h.conn, h.txn, h.effect.called⟩
  | none =>
    refine .of_ok ((bind_ok (call_ok (h.effect.failures ▸ hcall))).trans
      (modifyUnit_apply h.effect.called.unit _)) ⟨rfl, rfl, ?_⟩
    exact ⟨hconn.trans h.conn, htxn.trans h.txn, h.effect.called.setUnit _⟩

/-- The repositories are made, or the call for one of them throws. -/
theorem Holds.makeRepos (h : Holds name c w w' u) :
    Meets (makeRepos name)
      (fun _ w'' ↦ (∀ index ∈ [0, 1, 2], w.failures (w'.calls + index) = none) ∧
        Holds name c w w'' { u with userRepo := u.txn, postRepo := u.txn, tagRepo := u.txn })
      (Throws fun w'' ↦ (∃ index ∈ [0, 1, 2], w.failures (w'.calls + index) ≠ none) ∧
        ∃ u', Holds name c w w'' u') w' := by
  refine .bind ((h.makeRepo (fun txn unit ↦ { unit with userRepo := txn }) rfl rfl).mono
    (fun _ _ ↦ id) ?_) ?_
  · rintro stop w₁ ⟨hthrown, hcause, hholds⟩
    exact ⟨hthrown, ⟨0, by simp, hcause⟩, _, hholds⟩
  rintro - w₁ ⟨hmade₁, hcalls₁, hholds₁⟩
  refine .bind ((hholds₁.makeRepo (fun txn unit ↦ { unit with postRepo := txn }) rfl rfl).mono
    (fun _ _ ↦ id) ?_) ?_
  · rintro stop w₂ ⟨hthrown, hcause, hholds⟩
    exact ⟨hthrown, ⟨1, by simp, hcalls₁ ▸ hcause⟩, _, hholds⟩
  rintro - w₂ ⟨hmade₂, hcalls₂, hholds₂⟩
  rw [hcalls₁] at hmade₂ hcalls₂
  refine (hholds₂.makeRepo (fun txn unit ↦ { unit with tagRepo := txn }) rfl rfl).mono ?_ ?_
  · rintro - w₃ ⟨hmade₃, -, hholds₃⟩
    rw [hcalls₂] at hmade₃
    exact ⟨by simpa using ⟨hmade₁, hmade₂, hmade₃⟩, hholds₃⟩
  · rintro stop w₃ ⟨hthrown, hcause, hholds⟩
    exact ⟨hthrown, ⟨2, by simp, hcalls₂ ▸ hcause⟩, _, hholds⟩

/-- How `Begin` can fail: the work is refused and nothing changed, or a repository is not made and
the work stays open. -/
inductive BeginFails (name c : ℕ) (u : UnitOfWork) (w w' : World) : UnitOfWork → Prop
  | refused (hcause : w.failures w.calls ≠ none ∨ (w.connections c).work ≠ none)
      (heffect : Effect name u c (w.connections c) w w') : BeginFails name c u w w' u
  | broken {u' : UnitOfWork} (hopen : w.failures w.calls = none)
      (hwork : (w.connections c).work = none)
      (hcause : ∃ index ∈ [0, 1, 2], w.failures (w.calls + 1 + index) ≠ none)
      (hholds : Holds name c w w' u') : BeginFails name c u w w' u'

/-- The failed `Begin` leaves the flag cleared. -/
theorem BeginFails.deactivate (h : BeginFails name c u w w' u') (hactive : u.isActive = false) :
    BeginFails name c u w (w'.setUnit name { u' with isActive := false })
      { u' with isActive := false } := by
  cases h with
  | refused hcause heffect =>
    have hsame : { u with isActive := false } = u := by
      rw [← hactive]
    rw [hsame]
    exact .refused hcause (heffect.setUnit u)
  | broken hopen hwork hcause hholds =>
    exact .broken hopen hwork hcause ⟨hholds.conn, hholds.txn, hholds.effect.setUnit _⟩

theorem BeginFails.unit (h : BeginFails name c u w w' u') : w'.units.cell name = some u' := by
  cases h with
  | refused _ heffect => exact heffect.unit
  | broken _ _ _ hholds => exact hholds.effect.unit

/-- The steps inside the `try`. -/
theorem start_spec (hcell : w.units.cell name = some u) (hconn : u.conn = some c)
    (htxn : (w.connections c).work = none → u.txn = none) : Meets (start name)
      (fun _ w' ↦ (w.connections c).work = none ∧ w.failures w.calls = none ∧
        (∀ index ∈ [0, 1, 2], w.failures (w.calls + 1 + index) = none) ∧
          Holds name c w w' (u.started ⟨c, w.begun⟩))
      (Throws fun w' ↦ ∃ u', BeginFails name c u w w' u') w := by
  by_cases hcause : w.failures w.calls ≠ none ∨ (w.connections c).work ≠ none
  · obtain ⟨what, hrefused⟩ := openWork_error hcause
    have hrun : start name w = .error (.thrown what) w.called := by
      unfold start
      rw [bind_ok (readUnit_apply hcell), hconn]
      exact (bind_ok (pure_apply c w)).trans (bind_error hrefused)
    exact .of_error hrun ⟨⟨what, rfl⟩, u, .refused hcause (Effect.refl hcell).called⟩
  · rw [not_or, not_ne_iff, not_ne_iff] at hcause
    obtain ⟨hopen, hwork⟩ := hcause
    have hbegun : Effect name u c { w.connections c with work := some (w.transaction c) } w
        (w.called.opened c) := (Effect.refl hcell).called.opened
    have hholds : Holds name c w _ { u with txn := some ⟨c, w.begun⟩, isActive := true } :=
      ⟨hconn, rfl, hbegun.setUnit _⟩
    refine .of_step ?_ (hholds.makeRepos.mono ?_ ?_)
    · unfold start
      rw [bind_ok (readUnit_apply hcell), hconn, deref, pure_bind,
        bind_ok (openWork_ok hopen hwork), bind_ok (assignTxn_apply hbegun.unit _), htxn hwork,
        World.closed, bind_ok (modifyUnit_apply (cell_setUnit ..) _), setUnit_setUnit, ← hconn]
    · rintro - w' ⟨hmade, hholds'⟩
      exact ⟨hwork, hopen, hmade, hholds'⟩
    · rintro stop w' ⟨hthrown, hcause, u', hholds'⟩
      exact ⟨hthrown, u', .broken hopen hwork hcause hholds'⟩

/-- `Begin` on a unit of work that is not active. It may own a work that a `Begin` which failed has
left open; then the connection refuses another one. -/
theorem begin_spec (hcell : w.units.cell name = some u) (hactive : u.isActive = false)
    (hconn : u.conn = some c) (htxn : (w.connections c).work = none → u.txn = none) :
    Meets (begin name)
      (fun _ w' ↦ (w.connections c).work = none ∧ w.failures w.calls = none ∧
        (∀ index ∈ [0, 1, 2], w.failures (w.calls + 1 + index) = none) ∧
          Holds name c w w' (u.started ⟨c, w.begun⟩))
      (Throws fun w' ↦ ∃ u', u'.isActive = false ∧ BeginFails name c u w w' u') w := by
  unfold begin
  refine .of_step (bind_ok (readUnit_apply hcell)) ?_
  rw [if_neg (by rw [hactive]; exact Bool.false_ne_true)]
  refine Meets.catchException (start_spec hcell hconn htxn) ?_
  rintro what w' ⟨u', hfails⟩
  refine .of_step (bind_ok (modifyUnit_apply hfails.unit _)) (Meets.raise ?_)
  exact ⟨_, rfl, hfails.deactivate hactive⟩

/-- `Begin` on a unit of work that is active. -/
theorem begin_active (hcell : w.units.cell name = some u) (hactive : u.isActive = true) :
    begin name w = .error (.thrown "Transaction is already active") w := by
  unfold begin
  rw [bind_ok (readUnit_apply hcell), if_pos hactive]
  rfl

/-- `Begin` on a unit of work that lost its connection to a move. -/
theorem begin_null (hcell : w.units.cell name = some u) (hactive : u.isActive = false)
    (hconn : u.conn = none) : begin name w = .error .badAccess w := by
  have hstart : start name w = .error .badAccess w := by
    unfold start
    rw [bind_ok (readUnit_apply hcell), hconn]
    exact bind_error rfl
  unfold begin
  rw [bind_ok (readUnit_apply hcell), if_neg (by rw [hactive]; exact Bool.false_ne_true)]
  exact catching_error hstart _

/-- A unit of work whose connection has no open work begins when nothing fails. -/
theorem begin_returns (hcell : w.units.cell name = some u)
    (hactive : u.isActive = false) (hconn : u.conn = some c) (htxn : u.txn = none)
    (hwork : (w.connections c).work = none) (hnothing : ∀ index, w.failures index = none) :
    ∃ w', begin name w = .ok () w' := by
  have hmeets := begin_spec hcell hactive hconn fun _ ↦ htxn
  cases hrun : begin name w with
  | ok value w' => exact ⟨w', rfl⟩
  | error stop w' =>
    obtain ⟨-, u', -, hfails⟩ := hmeets.error hrun
    cases hfails with
    | refused hcause _ => exact absurd hcause (by simp [hnothing, hwork])
    | broken _ _ hcause _ =>
      obtain ⟨index, -, hne⟩ := hcause
      exact absurd (hnothing _) hne

end Begin

/-! ### `Commit` and `Rollback` -/

section Finish

open UnitOfWork

variable {transaction : OpenWork}

theorem commitWork_ok (hcall : w.failures w.calls = none)
    (hwork : (w.connections c).work = some transaction) :
    commitWork ⟨c, transaction.number⟩ w = .ok () (w.called.setConnection c
      { w.connections c with tables := transaction.view, work := none }) := by
  have hopen : w.called.open? ⟨c, transaction.number⟩ = some transaction := by
    simp [World.open?, World.called, hwork]
  unfold commitWork
  rw [bind_ok (call_ok hcall), bind_ok (get_apply _), hopen]
  rfl

theorem abortWork_ok (hcall : w.failures w.calls = none) (work : Work) :
    abortWork work w = .ok () (w.called.closed (some work)) :=
  bind_ok (call_ok hcall)

/-- The handler of `Commit` and `Rollback`, which cleans up and throws again. -/
theorem Effect.cleanup_raise (h : Effect name u c k w w') {number : ℕ}
    (htxn : u.txn = some ⟨c, number⟩)
    (hwork : ∀ transaction, k.work = some transaction → transaction.number = number)
    {returns : Unit → World → Prop} (what : String) :
    Meets (do UnitOfWork.cleanup name; raise what) returns
      (Throws (Effect name u.cleaned c { k with work := none } w)) w' := by
  obtain ⟨w'', hrun, heffect⟩ := h.cleanup htxn hwork
  exact .of_step (bind_ok hrun) (Meets.raise heffect)

/-- `Commit` makes what the transaction sees durable, or throws. The work is closed in any case. -/
theorem commit_spec (hcell : w.units.cell name = some u) (hactive : u.isActive = true)
    (htxn : u.txn = some ⟨c, transaction.number⟩)
    (hwork : (w.connections c).work = some transaction) : Meets (commit name)
      (fun _ w' ↦ Effect name u.cleaned c
        { w.connections c with tables := transaction.view, work := none } w w')
      (Throws (Effect name u.cleaned c { w.connections c with work := none } w)) w := by
  have hnumber : ∀ other, (w.connections c).work = some other → other.number = transaction.number :=
    fun other hother ↦ by rw [Option.some.inj (hwork.symm.trans hother)]
  have hcalled := (Effect.refl (c := c) hcell).called
  have hread : commit name w = catchException
      (do commitWork ⟨c, transaction.number⟩; cleanup name) (fun what ↦ do
        cleanup name
        raise ("Failed to commit transaction: " ++ what)) w := by
    unfold commit
    rw [bind_ok (readUnit_apply hcell), hactive, htxn]
  refine .of_step hread (Meets.catchException ?_
    fun what w' (hafter : Effect name u c (w.connections c) w w') ↦
      hafter.cleanup_raise htxn hnumber _)
  cases hcall : w.failures w.calls with
  | some what =>
    exact .of_error (bind_error (bind_error (call_error hcall))) ⟨⟨what, rfl⟩, hcalled⟩
  | none =>
    obtain ⟨w', hrun, heffect⟩ := (hcalled.setConnection
      { w.connections c with tables := transaction.view, work := none }).cleanup htxn
        fun _ hnone ↦ by cases hnone
    exact .of_ok ((bind_ok (commitWork_ok hcall hwork)).trans hrun) heffect

/-- `Rollback` on a unit of work that owns a work. The work is closed in any case. -/
theorem rollback_active (hcell : w.units.cell name = some u) (hactive : u.isActive = true)
    {number : ℕ} (htxn : u.txn = some ⟨c, number⟩)
    (hwork : ∀ transaction, (w.connections c).work = some transaction →
      transaction.number = number) : Meets (rollback name)
      (fun _ w' ↦ Effect name u.cleaned c { w.connections c with work := none } w w')
      (Throws (Effect name u.cleaned c { w.connections c with work := none } w)) w := by
  have hcalled := (Effect.refl (c := c) hcell).called
  have hread : rollback name w = catchException
      (do abortWork ⟨c, number⟩; cleanup name) (fun what ↦ do
        cleanup name
        raise ("Failed to rollback transaction: " ++ what)) w := by
    unfold rollback
    rw [bind_ok (readUnit_apply hcell), hactive, htxn]
  refine .of_step hread (Meets.catchException ?_
    fun what w' (hafter : Effect name u c (w.connections c) w w') ↦
      hafter.cleanup_raise htxn hwork _)
  cases hcall : w.failures w.calls with
  | some what =>
    exact .of_error (bind_error (bind_error (call_error hcall))) ⟨⟨what, rfl⟩, hcalled⟩
  | none =>
    obtain ⟨w', hrun, heffect⟩ := (hcalled.closed hwork).cleanup htxn
      fun _ hnone ↦ by cases hnone
    exact .of_ok ((bind_ok (abortWork_ok hcall _)).trans hrun) heffect

/-- `Rollback` on a unit of work that is not active cleans up. -/
theorem rollback_inactive (hcell : w.units.cell name = some u) (hactive : u.isActive = false) :
    rollback name w = cleanup name w := by
  unfold rollback
  rw [bind_ok (readUnit_apply hcell), hactive]

/-- `Commit` on a unit of work that is not active. -/
theorem commit_inactive (hcell : w.units.cell name = some u) (hactive : u.isActive = false) :
    commit name w = .error (.thrown "No active transaction to commit") w := by
  unfold commit
  rw [bind_ok (readUnit_apply hcell), hactive]
  rfl

end Finish

/-! ### Moves and destruction -/

section Moves

open UnitOfWork

variable {source : ℕ} {v : UnitOfWork}

theorem units_closed (w : World) (txn : Option Work) : (w.closed txn).units = w.units := by
  cases txn with
  | none => rfl
  | some work =>
    rw [World.closed]
    split <;> rfl

theorem closed_setUnit (w : World) (name : ℕ) (u : UnitOfWork) (txn : Option Work) :
    (w.setUnit name u).closed txn = (w.closed txn).setUnit name u := by
  cases txn with
  | none => rfl
  | some work =>
    rw [World.closed, World.closed]
    cases hopen : w.open? work with
    | none =>
      have hopen' : (w.setUnit name u).open? work = none := hopen
      rw [hopen']
    | some transaction =>
      have hopen' : (w.setUnit name u).open? work = some transaction := hopen
      rw [hopen']
      rfl

theorem setUnit_self (hcell : w.units.cell name = some u) : w.setUnit name u = w := by
  have hunits : w.units.store name u = w.units := Heap.ext_cell fun other ↦ by
    rw [Heap.cell_store]
    split_ifs with hother
    · rw [hother, hcell]
    · rfl
  rw [World.setUnit, hunits]

theorem moveConstruct_apply (hsource : w.units.cell source = some u) :
    moveConstruct name source w =
      .ok () ((w.setUnit source u.movedFrom).setUnit name u) := by
  unfold moveConstruct
  rw [bind_ok (readUnit_apply hsource), bind_ok (modifyUnit_apply hsource _)]
  rfl

/-- A move assignment destroys the work of its target. -/
theorem moveAssign_apply (hname : w.units.cell name = some v)
    (hsource : w.units.cell source = some u) (hne : name ≠ source) : moveAssign name source w =
      .ok () (((w.closed v.txn).setUnit source u.movedFrom).setUnit name u) := by
  have hkept : (w.setUnit source u.movedFrom).units.cell name = some v := by
    rw [World.setUnit, Heap.cell_store, if_neg hne, hname]
  have hassigned := assignTxn_apply hkept u.txn
  rw [closed_setUnit, closed_setUnit] at hassigned
  unfold moveAssign
  rw [bind_ok (readUnit_apply hsource), bind_ok (modifyUnit_apply hsource _), bind_ok hassigned,
    modifyUnit_apply (cell_setUnit ..), setUnit_setUnit]

/-- A unit of work that is moved to itself stays as it is. -/
theorem moveAssign_self (hcell : w.units.cell name = some u) :
    moveAssign name name w = .ok () w := by
  unfold moveAssign
  rw [bind_ok (readUnit_apply hcell), bind_ok (modifyUnit_apply hcell _),
    bind_ok (assignTxn_apply (cell_setUnit ..) _), setUnit_setUnit, movedFrom, World.closed,
    modifyUnit_apply (cell_setUnit ..), setUnit_setUnit, setUnit_self hcell]

/-- The destruction of a unit of work that owns no work. -/
theorem destroy_inactive (hcell : w.units.cell name = some u) (hactive : u.isActive = false)
    (htxn : u.txn = none) : destroy name w = .ok () (w.released name) := by
  have hreleased : (w.setUnit name { u with txn := none }).released name = w.released name := by
    rw [← htxn, setUnit_self hcell]
  unfold destroy
  rw [bind_ok (readUnit_apply hcell), hactive]
  refine (bind_ok (assignTxn_apply hcell none)).trans ?_
  rw [htxn, modify_apply, World.closed, hreleased]

/-- The `abort()` of the destructor, whose exceptions are suppressed. -/
theorem abort_suppressed (hcell : w.units.cell name = some u) {number : ℕ}
    (hwork : ∀ transaction, (w.connections c).work = some transaction →
      transaction.number = number) :
    ∃ w' k, catchException (abortWork ⟨c, number⟩) (fun _ ↦ pure ()) w = .ok () w' ∧
      Effect name u c k w w' ∧ { k with work := none } = { w.connections c with work := none } ∧
        ∀ transaction, k.work = some transaction → transaction.number = number := by
  have hcalled := (Effect.refl (c := c) hcell).called
  cases hcall : w.failures w.calls with
  | some what =>
    exact ⟨_, _, catching_error (bind_error (call_error hcall)) _, hcalled, rfl, hwork⟩
  | none =>
    exact ⟨_, _, catching_ok (abortWork_ok hcall _) _, hcalled.closed hwork, rfl,
      fun _ hnone ↦ by cases hnone⟩

/-- The destruction of a unit of work that owns a work closes the work. -/
theorem destroy_active (hcell : w.units.cell name = some u) (hactive : u.isActive = true)
    {number : ℕ} (htxn : u.txn = some ⟨c, number⟩)
    (hwork : ∀ transaction, (w.connections c).work = some transaction →
      transaction.number = number) : ∃ w', destroy name w = .ok () (w'.released name) ∧
        Effect name u.cleaned c { w.connections c with work := none } w w' := by
  obtain ⟨w₁, k, habort, heffect₁, hsame, hnumber⟩ := abort_suppressed hcell hwork
  obtain ⟨w₂, hcleanup, heffect₂⟩ := heffect₁.cleanup htxn hnumber
  refine ⟨w₂, ?_, hsame ▸ heffect₂⟩
  have hassigned : assignTxn name none w₂ = .ok () w₂ := by
    rw [assignTxn_apply heffect₂.unit none]
    exact congrArg (EStateM.Result.ok ()) (setUnit_self heffect₂.unit)
  unfold destroy
  rw [bind_ok (readUnit_apply hcell), hactive, htxn]
  exact (bind_ok habort).trans ((bind_ok hcleanup).trans (bind_ok hassigned))

end Moves

end StudStuff.Dbms
