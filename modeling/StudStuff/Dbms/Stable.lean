import StudStuff.Dbms.GetUserTags

/-!
# What every program over units of work keeps

A property of the world that survives the few changes that the calls of libpqxx and the members of
`PostgresUnitOfWork` make (`Stable`) is an invariant of every member, of the repositories and of
both use cases, whichever calls throw.
-/

set_option autoImplicit false
set_option relaxedAutoImplicit false

namespace StudStuff.Dbms

open Lib

/-- A property that survives a call, the changes of the units of work, and the begin, the end and
the statements of a work. No member but the moves writes the comments repository. -/
structure Stable (invariant : World → Prop) : Prop where
  called : ∀ w, invariant w → invariant w.called
  setUnit : ∀ w name u u', w.units.cell name = some u → u'.commentRepo = u.commentRepo →
    invariant w → invariant (w.setUnit name u')
  created : ∀ w name conn, invariant w → invariant (w.setUnit name (.fresh conn))
  released : ∀ w name, invariant w → invariant (w.released name)
  opened : ∀ w c, invariant w → invariant (w.opened c)
  closed : ∀ w c, invariant w →
    invariant (w.setConnection c { w.connections c with work := none })
  committed : ∀ w c transaction, (w.connections c).work = some transaction → invariant w →
    invariant (w.setConnection c
      { w.connections c with tables := transaction.view, work := none })
  /-- A user may be inserted, and the next number is taken in any case. -/
  insertedUser : ∀ w c transaction email, (w.connections c).work = some transaction →
    invariant w →
      let next := { w.connections c with nextUserId := (w.connections c).nextUserId + 1 }
      invariant (w.setConnection c next) ∧ ∀ result view,
        transaction.view.insertUser (w.connections c).nextUserId transaction.now email =
          .ok (result, view) →
        invariant (w.setConnection c { next with work := some { transaction with view } })
  insertedPost : ∀ w c transaction title description status authorId,
    (w.connections c).work = some transaction → invariant w →
      let next := { w.connections c with nextPostId := (w.connections c).nextPostId + 1 }
      invariant (w.setConnection c next) ∧ ∀ row view,
        transaction.view.insertPost (w.connections c).nextPostId transaction.now title description
          status authorId = .ok (row, view) →
        invariant (w.setConnection c { next with work := some { transaction with view } })

section Stable

open UnitOfWork

variable {invariant : World → Prop} {name : ℕ}

theorem open?_eq_some {w : World} {work : Work} {transaction : OpenWork}
    (h : w.open? work = some transaction) :
    (w.connections work.connection).work = some transaction :=
  (Option.filter_eq_some_iff.mp h).1

theorem Stable.call (h : Stable invariant) : Maintains invariant call := by
  intro w hw
  unfold Meets Dbms.call
  cases w.failures w.calls <;> exact h.called w hw

theorem Stable.catchException {α : Type} {program : DbM α} {handler : String → DbM α}
    (hprogram : Maintains invariant program)
    (hhandler : ∀ what, Maintains invariant (handler what)) :
    Maintains invariant (catchException program handler) := by
  refine .catching hprogram ?_
  rintro (what | _)
  · exact hhandler what
  · exact .throw

theorem Stable.readUnit : Maintains invariant (readUnit name) := by
  intro w hw
  unfold Meets Dbms.readUnit
  cases w.units.cell name <;> exact hw

theorem Stable.deref {α : Type} (ptr : Option α) : Maintains invariant (deref ptr) := by
  cases ptr
  · exact .throw
  · exact .pure

/-- A change of the fields that leaves the comments repository as it is. -/
theorem Stable.modifyUnit (h : Stable invariant) {change : UnitOfWork → UnitOfWork}
    (hchange : ∀ u, (change u).commentRepo = u.commentRepo) :
    Maintains invariant (modifyUnit name change) := by
  intro w hw
  unfold Meets Dbms.modifyUnit
  cases hcell : w.units.cell name with
  | none => exact hw
  | some u => exact h.setUnit w name u _ hcell (hchange u) hw

theorem Stable.closeWork (h : Stable invariant) (work : Option Work) :
    Maintains invariant (closeWork work) := by
  refine .modify fun w hw ↦ ?_
  cases work with
  | none => exact hw
  | some work =>
    rw [World.closed]
    cases w.open? work with
    | none => exact hw
    | some transaction => exact h.closed w work.connection hw

theorem Stable.openWork (h : Stable invariant) (c : ℕ) : Maintains invariant (openWork c) := by
  refine .bind h.call fun _ w hw ↦ .of_step (bind_ok (get_apply w)) ?_
  split_ifs
  · exact .throw hw
  · exact .of_ok rfl (h.opened w c hw)

theorem Stable.commitWork (h : Stable invariant) (work : Work) :
    Maintains invariant (commitWork work) := by
  refine .bind h.call fun _ w hw ↦ .of_step (bind_ok (get_apply w)) ?_
  cases hopen : w.open? work with
  | none => exact .throw hw
  | some transaction => exact .of_ok rfl (h.committed w _ transaction (open?_eq_some hopen) hw)

theorem Stable.assignTxn (h : Stable invariant) (txn : Option Work) :
    Maintains invariant (assignTxn name txn) :=
  .bind Stable.readUnit fun _ ↦ .bind (h.modifyUnit fun _ ↦ rfl) fun _ ↦ h.closeWork _

theorem Stable.cleanup (h : Stable invariant) : Maintains invariant (cleanup name) :=
  .bind (h.modifyUnit fun _ ↦ rfl) fun _ ↦ .bind (h.modifyUnit fun _ ↦ rfl) fun _ ↦
    h.assignTxn none

theorem Stable.makeRepo (h : Stable invariant) {store : Option Work → UnitOfWork → UnitOfWork}
    (hstore : ∀ txn u, (store txn u).commentRepo = u.commentRepo) :
    Maintains invariant (makeRepo name store) :=
  .bind h.call fun _ ↦ h.modifyUnit fun u ↦ hstore u.txn u

theorem Stable.begin (h : Stable invariant) : Maintains invariant (begin name) := by
  refine .bind Stable.readUnit fun u ↦ ?_
  split_ifs
  · exact .throw
  refine Stable.catchException ?_ fun what ↦ .bind (h.modifyUnit fun _ ↦ rfl) fun _ ↦ .throw
  refine .bind Stable.readUnit fun u ↦ .bind (Stable.deref u.conn) fun conn ↦
    .bind (h.openWork conn) fun work ↦ .bind (h.assignTxn _) fun _ ↦
      .bind (h.modifyUnit fun _ ↦ rfl) fun _ ↦ ?_
  exact .bind (h.makeRepo fun _ _ ↦ rfl) fun _ ↦ .bind (h.makeRepo fun _ _ ↦ rfl) fun _ ↦
    h.makeRepo fun _ _ ↦ rfl

/-- `Commit` and `Rollback` end a work and clean up, whether that succeeds or not. -/
theorem Stable.finish (h : Stable invariant) {program : DbM Unit}
    (hprogram : Maintains invariant program) (message : String → String) :
    Maintains invariant (Dbms.catchException (do program; UnitOfWork.cleanup name) fun what ↦ do
      UnitOfWork.cleanup name
      raise (message what)) :=
  Stable.catchException (.bind hprogram fun _ ↦ h.cleanup) fun _ ↦ .bind h.cleanup fun _ ↦ .throw

theorem Stable.commit (h : Stable invariant) : Maintains invariant (commit name) := by
  refine .bind Stable.readUnit fun u ↦ ?_
  split
  · exact h.finish (h.commitWork _) _
  · exact .throw

theorem Stable.rollback (h : Stable invariant) : Maintains invariant (rollback name) := by
  refine .bind Stable.readUnit fun u ↦ ?_
  split
  · exact h.finish (.bind h.call fun _ ↦ h.closeWork _) _
  · exact h.cleanup

theorem Stable.destroy (h : Stable invariant) : Maintains invariant (destroy name) := by
  have hend : Maintains invariant (do
      UnitOfWork.assignTxn name none
      modify (·.released name)) :=
    .bind (h.assignTxn none) fun _ ↦ .modify fun w ↦ h.released w name
  refine .bind Stable.readUnit fun u ↦ ?_
  split
  · exact .bind (Stable.catchException (.bind h.call fun _ ↦ h.closeWork _) fun _ ↦ .pure)
      fun _ ↦ .bind h.cleanup fun _ ↦ hend
  · exact hend

theorem Stable.repository (field : UnitOfWork → Option Work) :
    Maintains invariant (repository field name) := by
  refine .bind Stable.readUnit fun u ↦ ?_
  split
  · exact .pure
  · exact .throw

theorem Stable.create (h : Stable invariant) (allocator : Allocator) (c : ℕ) :
    Maintains invariant (create allocator c) := by
  refine fun w hw ↦ .of_step (bind_ok (get_apply w)) ?_
  split_ifs
  · exact .of_ok rfl (h.created w _ _ hw)
  · exact .throw hw

end Stable

/-! ### The use cases -/

section UseCases

open UnitOfWork

variable {invariant : World → Prop} {name : ℕ}

theorem Stable.orThrow {α : Type} (result : Except String α) :
    Maintains invariant (orThrow result) := by
  cases result
  · exact .throw
  · exact .pure

theorem Stable.createUser (h : Stable invariant) (work : Work) (email : String) :
    Maintains invariant (createUser work email) := by
  have hinsert : Maintains invariant (insertUser work email) := by
    refine .bind h.call fun _ w hw ↦ .of_step (bind_ok (get_apply w)) ?_
    cases hopen : w.open? work with
    | none => exact .throw hw
    | some transaction =>
      obtain ⟨hnext, hinserted⟩ := h.insertedUser w _ transaction email (open?_eq_some hopen) hw
      dsimp only
      split
      · exact .of_error rfl hnext
      · next result view hstatement => exact .of_ok rfl (hinserted result view hstatement)
  refine .bind hinsert fun result ↦ ?_
  cases result with
  | none => exact .pure
  | some row => exact .bind (.bind h.call fun _ ↦ Stable.orThrow _) fun _ ↦ .pure

theorem Stable.createPost (h : Stable invariant) (work : Work) (title : String)
    (description : Option String) (status : Status) (authorId : Option Int) :
    Maintains invariant (createPost work title description status authorId) := by
  have hinsert : Maintains invariant (insertPost work title description status authorId) := by
    refine .bind h.call fun _ w hw ↦ .of_step (bind_ok (get_apply w)) ?_
    cases hopen : w.open? work with
    | none => exact .throw hw
    | some transaction =>
      obtain ⟨hnext, hinserted⟩ := h.insertedPost w _ transaction title description
        (statusToString status) authorId (open?_eq_some hopen) hw
      dsimp only
      split
      · exact .of_error rfl hnext
      · next row view hstatement => exact .of_ok rfl (hinserted row view hstatement)
  exact .bind hinsert fun row ↦ .bind h.call fun _ ↦ .bind (Stable.orThrow _) fun _ ↦
    Stable.orThrow _

/-- `CreateUserWithPost`. -/
theorem Stable.execute (h : Stable invariant) (allocator : Allocator) (c : ℕ) (request : Request) :
    Maintains invariant (execute allocator c request) := by
  have hboth (uow : ℕ) : Maintains invariant (createBoth uow request) := by
    refine .bind h.begin fun _ ↦ .bind (Stable.repository _) fun users ↦
      .bind (h.createUser users _) fun result ↦ ?_
    cases result with
    | none => exact .bind h.rollback fun _ ↦ .pure
    | some user =>
      exact .bind (Stable.repository _) fun posts ↦ .bind (h.createPost posts _ _ _ _) fun _ ↦
        .bind h.commit fun _ ↦ .pure
  unfold Dbms.execute
  split_ifs
  · exact .pure
  · exact .pure
  refine .bind (h.create allocator c) fun uow ↦ .bind (Stable.catchException (hboth uow) fun _ ↦
    .bind (Stable.catchException h.rollback fun _ ↦ .pure) fun _ ↦ .pure) fun _ ↦
      .bind h.destroy fun _ ↦ .pure

/-- `GetUserTagsFromComments`. -/
theorem Stable.executeTags (h : Stable invariant)
    (collation : Option (List Char) → Option (List Char) → Bool) (forum : Forum)
    (allocator : Allocator) (c : ℕ) :
    Maintains invariant (GetUserTagsFromComments.execute collation forum allocator c) := by
  have hquery (work : Work) :
      Maintains invariant (GetUserTagsFromComments.getTagsForAllUsers collation forum work) := by
    refine .bind h.call fun _ w hw ↦ .of_step (bind_ok (get_apply w)) ?_
    cases w.open? work with
    | none => exact .throw hw
    | some transaction => exact .pure hw
  have hread (uow : ℕ) :
      Maintains invariant (GetUserTagsFromComments.readTags collation forum uow) :=
    .bind h.begin fun _ ↦ .bind (Stable.repository _) fun tags ↦ .bind (hquery tags) fun _ ↦
      .bind h.commit fun _ ↦ .pure
  refine Stable.catchException (.bind (h.create allocator c) fun uow ↦ ?_) fun _ ↦ .pure
  exact .bind (Stable.catchException (hread uow) fun _ ↦ .bind h.destroy fun _ ↦ .throw) fun _ ↦
    .bind h.destroy fun _ ↦ .pure

end UseCases

end StudStuff.Dbms
