import StudStuff.Dbms.AllOrNothing
import StudStuff.Dbms.TagsQuery

/-!
# `GetUserTagsFromComments`

The use case that reads the tags of all users. Its unit of work is a local of the `try`, so that an
exception destroys it before the handler runs.

Whichever calls throw, `Execute` returns and leaves every connection as it was
(`execute_reads`). The results are those of the durable tables, and they are there when nothing
fails.
-/

set_option autoImplicit false
set_option relaxedAutoImplicit false

namespace StudStuff.Dbms

open Lib

/-! ### The use case -/

namespace GetUserTagsFromComments

/-- `GetUserTagsFromComments::Response`. -/
structure Response where
  success : Bool
  message : String
  results : List UserTagsResult

/-- `Response::Success`. -/
def Response.ofSuccess (results : List UserTagsResult) : Response :=
  ⟨true, "Tags retrieved successfully", results⟩

/-- `Response::Error`. -/
def Response.ofError (error : String) : Response := ⟨false, error, []⟩

variable (collation : Option (List Char) → Option (List Char) → Bool) (forum : Forum)
  (allocator : Allocator) (connection : ℕ)

/-- `PostgresTagRepo::GetTagsForAllUsers`. -/
def getTagsForAllUsers (work : Work) : DbM (List UserTagsResult) := do
  call
  match (← get).open? work with
  | none => raise "Attempt to execute a statement in a closed transaction."
  | some transaction => return tagsForAllUsers collation forum transaction.view

/-- The steps between the creation of the unit of work and its destruction. -/
def readTags (uow : ℕ) : DbM (List UserTagsResult) := do
  UnitOfWork.begin uow
  let results ← getTagsForAllUsers collation forum (← UnitOfWork.tags uow)
  UnitOfWork.commit uow
  return results

/-- The steps of `Execute` inside the `try`. An exception destroys the unit of work on its way. -/
def fetchTags : DbM Response := do
  let uow ← create allocator connection
  let results ← catchException (readTags collation forum uow) fun what ↦ do
    UnitOfWork.destroy uow
    raise what
  UnitOfWork.destroy uow
  return .ofSuccess results

/-- `GetUserTagsFromComments::Execute`, which does not look at its request. -/
def execute : DbM Response :=
  catchException (fetchTags collation forum allocator connection) fun what ↦
    return .ofError ("Database error: " ++ what)

/-! ### The end of a unit of work -/

section Unwinds

open UnitOfWork

variable {name c number : ℕ} {base w : World} {u : UnitOfWork} {k : Connection}

/-- The destruction of the unit of work leaves the connections as they were. -/
def Unwinds (name : ℕ) (base w : World) : Prop :=
  ∃ w', UnitOfWork.destroy name w = .ok () w' ∧ w'.connections = base.connections

theorem connections_eq (h : Effect name u c (base.connections c) base w) :
    w.connections = base.connections := by
  funext other
  by_cases hother : other = c
  · rw [hother, h.connection]
  · exact h.connections other hother

/-- Nothing is open. -/
theorem unwinds_finished (h : Effect name u c (base.connections c) base w)
    (hactive : u.isActive = false) (htxn : u.txn = none) : Unwinds name base w := by
  have hkept := connections_eq h
  exact ⟨_, destroy_inactive h.unit hactive htxn, hkept⟩

/-- The destruction of a unit of work that is not active closes its work. -/
theorem destroy_broken (hcell : w.units.cell name = some u) (hactive : u.isActive = false) :
    UnitOfWork.destroy name w =
      .ok () (((w.setUnit name { u with txn := none }).closed u.txn).released name) := by
  have hassign := assignTxn_apply hcell none
  generalize (w.setUnit name { u with txn := none }).closed u.txn = w₁ at hassign ⊢
  unfold UnitOfWork.destroy
  rw [bind_ok (readUnit_apply hcell), hactive]
  exact (bind_ok hassign).trans rfl

/-- The unit of work owns what is open, whether it is active or its `Begin` has failed. -/
theorem unwinds_open (h : Effect name u c k base w) (htxn : u.txn = some ⟨c, number⟩)
    (hwork : ∀ transaction, k.work = some transaction → transaction.number = number)
    (hk : { k with work := none } = base.connections c) : Unwinds name base w := by
  cases hactive : u.isActive with
  | true =>
    obtain ⟨w', hrun, heffect⟩ := destroy_active h.unit hactive htxn (h.connection ▸ hwork)
    rw [h.connection, hk] at heffect
    have hkept := connections_eq (h.trans heffect)
    exact ⟨_, hrun, hkept⟩
  | false =>
    have hclosed := (h.setUnit { u with txn := none }).closed hwork
    rw [hk, ← htxn] at hclosed
    have hkept := connections_eq hclosed
    exact ⟨_, destroy_broken h.unit hactive, hkept⟩

theorem unwinds_holds (h : Holds name c base w u) (hidle : (base.connections c).work = none) :
    Unwinds name base w := by
  refine unwinds_open h.effect h.txn (fun other hother ↦ ?_) ?_
  · exact congrArg OpenWork.number (Option.some.inj hother.symm)
  · rw [← hidle]

end Unwinds

/-! ### Reading the tags -/

section Reading

open UnitOfWork

variable {name c : ℕ} {base w : World} {u : UnitOfWork} {transaction : OpenWork}
  {collation : Option (List Char) → Option (List Char) → Bool} {forum : Forum}

/-- `Commit` returns when its call does not fail. -/
theorem commit_returns (hcell : w.units.cell name = some u) (hactive : u.isActive = true)
    (htxn : u.txn = some ⟨c, transaction.number⟩)
    (hwork : (w.connections c).work = some transaction) (hcall : w.failures w.calls = none) :
    ∃ w', UnitOfWork.commit name w = .ok () w' := by
  obtain ⟨w', hrun, -⟩ := ((Effect.refl (c := c) hcell).called.setConnection
    { w.connections c with tables := transaction.view, work := none }).cleanup htxn
      fun _ hnone ↦ by cases hnone
  refine ⟨w', ?_⟩
  unfold UnitOfWork.commit
  rw [bind_ok (readUnit_apply hcell), hactive, htxn]
  exact catching_ok ((bind_ok (commitWork_ok hcall hwork)).trans hrun) _

/-- The query is answered from what the transaction sees. -/
theorem getTagsForAllUsers_apply (hwork : (w.connections c).work = some transaction)
    (hcall : w.failures w.calls = none) :
    getTagsForAllUsers collation forum ⟨c, transaction.number⟩ w =
      .ok (tagsForAllUsers collation forum transaction.view) w.called := by
  have hopen : w.called.open? ⟨c, transaction.number⟩ = some transaction := by
    simp [World.open?, World.called, hwork]
  unfold getTagsForAllUsers
  rw [bind_ok (call_ok hcall), bind_ok (get_apply _), hopen]
  rfl

/-- A unit of work that has changed nothing is committed. -/
theorem commit_unwinds (hholds : Holds name c base w (u.started ⟨c, base.begun⟩))
    (hidle : (base.connections c).work = none) : Meets (UnitOfWork.commit name)
      (fun _ w' ↦ Unwinds name base w')
      (Throws fun w' ↦ Unwinds name base w' ∧ ¬∀ index, base.failures index = none) w := by
  have heffect := hholds.effect
  have hwork : (w.connections c).work = some (base.transaction c) := by
    rw [heffect.connection]
  have hends {k : Connection} {w' : World}
      (hcommit : Effect name (u.started ⟨c, base.begun⟩).cleaned c k w w')
      (hsame : k = base.connections c) : Unwinds name base w' :=
    unwinds_finished (hsame ▸ heffect.trans hcommit) rfl rfl
  have hmeets := commit_spec heffect.unit rfl rfl hwork
  cases hrun : UnitOfWork.commit name w with
  | ok value w' =>
    refine .of_ok hrun (hends (hmeets.ok hrun) ?_)
    rw [heffect.connection, ← hidle]
    rfl
  | error stop w' =>
    obtain ⟨hthrown, hcommit⟩ := hmeets.error hrun
    refine .of_error hrun ⟨hthrown, hends hcommit ?_, fun hnothing ↦ ?_⟩
    · rw [heffect.connection, ← hidle]
    · obtain ⟨w'', hreturns⟩ := commit_returns heffect.unit rfl rfl hwork
        ((congrFun heffect.failures _).trans (hnothing _))
      cases hreturns.symm.trans hrun

/-- The unit of work is begun on an idle connection, its results are those of the durable tables,
and it ends without a trace. It throws only if something fails. -/
theorem readTags_spec (hcell : base.units.cell name = some u) (hactive : u.isActive = false)
    (hconn : u.conn = some c) (htxn : u.txn = none) : Meets (readTags collation forum name)
      (fun results w ↦ results = tagsForAllUsers collation forum (base.connections c).tables ∧
        Unwinds name base w)
      (Throws fun w ↦ Unwinds name base w ∧
        ¬((base.connections c).work = none ∧ ∀ index, base.failures index = none)) base := by
  refine .bind ((begin_spec hcell hactive hconn fun _ ↦ htxn).mono (fun _ _ ↦ id) ?_) ?_
  · rintro stop w ⟨hthrown, u', hflag, hfails⟩
    refine ⟨hthrown, ?_⟩
    cases hfails with
    | refused hcause heffect =>
      refine ⟨unwinds_finished heffect hactive htxn, ?_⟩
      rintro ⟨hidle, hnothing⟩
      exact hcause.elim (absurd (hnothing _)) (absurd hidle)
    | broken hopen hidle hcause hholds =>
      refine ⟨unwinds_holds hholds hidle, ?_⟩
      rintro ⟨-, hnothing⟩
      obtain ⟨index, -, hne⟩ := hcause
      exact hne (hnothing _)
  · rintro - w₁ ⟨hidle, -, -, hholds⟩
    have htags : UnitOfWork.tags name w₁ = .ok ⟨c, base.begun⟩ w₁ := by
      unfold UnitOfWork.tags repository
      rw [bind_ok (readUnit_apply hholds.effect.unit)]
      rfl
    have hwork : (w₁.connections c).work = some (base.transaction c) := by
      rw [hholds.effect.connection]
    refine .of_step (bind_ok htags) ?_
    have hcalled : Holds name c base w₁.called (u.started ⟨c, base.begun⟩) :=
      ⟨hholds.conn, hholds.txn, hholds.effect.called⟩
    cases hcall : w₁.failures w₁.calls with
    | some what =>
      refine .of_error (bind_error (bind_error (call_error hcall)))
        ⟨⟨what, rfl⟩, unwinds_holds hcalled hidle, ?_⟩
      rintro ⟨-, hnothing⟩
      rw [hholds.effect.failures, hnothing] at hcall
      cases hcall
    | none =>
      refine .of_step (bind_ok (getTagsForAllUsers_apply hwork hcall))
        (.bind ((commit_unwinds hcalled hidle).mono (fun _ _ ↦ id) ?_) ?_)
      · rintro stop w₂ ⟨hthrown, hunwinds, hcause⟩
        exact ⟨hthrown, hunwinds, fun hsound ↦ hcause hsound.2⟩
      · exact fun _ w₂ hunwinds ↦ .of_ok rfl ⟨rfl, hunwinds⟩

end Reading

/-! ### `Execute` -/

section Execute

variable (collation : Option (List Char) → Option (List Char) → Bool) (forum : Forum)
  (allocator : Allocator) (c : ℕ) (w : World)

/-- What `Execute` leaves behind: the connections as they were. Its results are those of the durable
tables, and it fails only if the connection is closed, if a work is open on it or if a call
fails. -/
structure Reads (response : Response) (w' : World) : Prop where
  kept : w'.connections = w.connections
  results : response = .ofSuccess (tagsForAllUsers collation forum (w.connections c).tables) ∨
    ∃ what, response = .ofError ("Database error: " ++ what)
  succeeds : (w.connections c).isOpen = true → (w.connections c).work = none →
    (∀ index, w.failures index = none) → response.success = true

theorem fetchTags_spec : Meets (fetchTags collation forum allocator c)
    (fun response w' ↦ w'.connections = w.connections ∧
      response = .ofSuccess (tagsForAllUsers collation forum (w.connections c).tables))
    (Throws fun w' ↦ w'.connections = w.connections ∧ ¬((w.connections c).isOpen = true ∧
      (w.connections c).work = none ∧ ∀ index, w.failures index = none)) w := by
  unfold fetchTags
  cases hopen : (w.connections c).isOpen with
  | false =>
    exact .of_error (bind_error (create_closed allocator hopen)) ⟨⟨_, rfl⟩, rfl, fun hsound ↦
      Bool.noConfusion hsound.1⟩
  | true =>
    refine .of_step (bind_ok (create_apply allocator hopen)) ?_
    have hread : Meets (readTags collation forum (allocator.pick w.begun w.units.live)) _ _ _ :=
      readTags_spec (cell_setUnit w _ (.fresh (some c))) rfl rfl rfl
    refine .bind (Meets.catchException hread ?_) ?_
    · rintro what w₁ ⟨⟨w₂, hdestroy, hkept⟩, hcause⟩
      exact .of_step (bind_ok hdestroy) (Meets.raise ⟨hkept, fun hsound ↦ hcause hsound.2⟩)
    · rintro results w₁ ⟨rfl, w₂, hdestroy, hkept⟩
      exact .of_step (bind_ok hdestroy) (.pure ⟨hkept, rfl⟩)

theorem execute_keeps : Meets (execute collation forum allocator c)
    (fun _ w' ↦ w'.connections = w.connections) (fun _ _ ↦ False) w := by
  refine Meets.catchException ((fetchTags_spec collation forum allocator c w).mono
    (fun _ _ hfetched ↦ hfetched.1) fun _ _ ↦ id) ?_
  rintro what w' ⟨hkept, -⟩
  exact .pure hkept

/-- Whichever calls throw, `Execute` returns, and it changes nothing. -/
theorem execute_reads : Meets (execute collation forum allocator c)
    (Reads collation forum c w) (fun _ _ ↦ False) w := by
  refine Meets.catchException ((fetchTags_spec collation forum allocator c w).mono ?_
    fun _ _ ↦ id) ?_
  · rintro response w' ⟨hkept, rfl⟩
    exact ⟨hkept, Or.inl rfl, fun _ _ _ ↦ rfl⟩
  · rintro what w' ⟨hkept, hcause⟩
    exact .pure ⟨hkept, Or.inr ⟨what, rfl⟩, fun hopen hidle hnothing ↦
      absurd ⟨hopen, hidle, hnothing⟩ hcause⟩

end Execute

end GetUserTagsFromComments

end StudStuff.Dbms
