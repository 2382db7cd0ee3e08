import StudStuff.Lib.Transitions
import StudStuff.Dbms.Lifecycle
import StudStuff.Dbms.Stable

/-!
# Accessors follow the transaction

`Users()`, `Posts()`, `Tags()` and `Comments()` of a unit of work on which `Begin`, `Commit` and
`Rollback` are called in any order, with any of the calls in them throwing. The repositories of an
active unit of work are bound to the transaction that is open (`Bound`), and a unit of work that is
not active refuses all four.

`Begin` makes no comments repository, although there is a field for it and `Comments()` looks for
one. So `Comments()` throws in the active states as well (`follows_iff`).
-/

set_option autoImplicit false
set_option relaxedAutoImplicit false

namespace StudStuff.Dbms

open Lib

/-! ### Accessors and runs -/

/-- The accessors of a unit of work. -/
inductive Accessor
  | users
  | posts
  | tags
  | comments
  deriving DecidableEq, Repr

/-- The field that an accessor looks at. -/
def Accessor.field : Accessor → UnitOfWork → Option Work
  | .users => UnitOfWork.userRepo
  | .posts => UnitOfWork.postRepo
  | .tags => UnitOfWork.tagRepo
  | .comments => UnitOfWork.commentRepo

/-- The member that an accessor calls. -/
def Accessor.member : Accessor → ℕ → DbM Work
  | .users => UnitOfWork.users
  | .posts => UnitOfWork.posts
  | .tags => UnitOfWork.tags
  | .comments => UnitOfWork.comments

/-- The accessor follows the transaction: it returns a repository that is bound to the open
transaction of the unit of work while it is active, and throws while it is not. -/
def Accessor.Follows (accessor : Accessor) (name : ℕ) (w : World) : Prop :=
  ∀ u, w.units.cell name = some u →
    (u.isActive = true → ∃ work, accessor.member name w = .ok work w ∧ u.txn = some work ∧
      (w.open? work).isSome = true) ∧
    (u.isActive = false → ∃ what, accessor.member name w = .error (.thrown what) w)

/-- One call of `Begin`, `Commit` or `Rollback` on a unit of work. -/
def TransactionStep (name : ℕ) (w w' : World) : Prop :=
  ∃ step : Step, step.op ∈ [.begin name, .commit name, .rollback name] ∧ step.Runs w w'

/-- The states in which a unit of work can be after it was constructed over a connection. -/
def TransactionState (name c : ℕ) (w : World) : Prop :=
  ∃ start : World, start.units.cell name = some (.fresh (some c)) ∧
    Relation.ReflTransGen (TransactionStep name) start w

section Steps

open UnitOfWork

variable {invariant : World → Prop} {name : ℕ} {w w' : World}

/-- What `Begin`, `Commit` and `Rollback` keep is kept by a step, whether it returns or throws. -/
theorem TransactionStep.keeps (hstep : TransactionStep name w w')
    (hprepared : ∀ w failures, invariant w → invariant (w.prepared failures))
    (hbegin : Maintains invariant (begin name)) (hcommit : Maintains invariant (commit name))
    (hrollback : Maintains invariant (rollback name)) (h : invariant w) : invariant w' := by
  obtain ⟨⟨op, failures⟩, hop, hruns⟩ := hstep
  have hmember : Maintains invariant op.member := by
    simp only [List.mem_cons, List.not_mem_nil, or_false] at hop
    rcases hop with rfl | rfl | rfl
    · exact hbegin
    · exact hcommit
    · exact hrollback
  have hmeets := hmember (w.prepared failures) (hprepared w failures h)
  exact hruns.of_meets _ (hmeets.mono (fun _ _ ↦ id) fun _ _ hkept _ ↦ hkept)

end Steps

/-! ### The invariant -/

/-- A unit of work and its connection. The repositories of an active one hold the open work. If one
that is not active has kept a work, then because a `Begin` failed, and the work is still open. -/
inductive Bound (name c : ℕ) (w : World) : Prop
  | inactive (u : UnitOfWork) (hcell : w.units.cell name = some u) (hconn : u.conn = some c)
      (hactive : u.isActive = false) (htxn : (w.connections c).work = none → u.txn = none)
  | active (u : UnitOfWork) (hcell : w.units.cell name = some u) (hconn : u.conn = some c)
      (hactive : u.isActive = true) (transaction : OpenWork)
      (hwork : (w.connections c).work = some transaction)
      (htxn : u.txn = some ⟨c, transaction.number⟩) (husers : u.userRepo = u.txn)
      (hposts : u.postRepo = u.txn) (htags : u.tagRepo = u.txn)

section Bound

open UnitOfWork

variable {w w' : World} {name c : ℕ} {u : UnitOfWork}

theorem Bound.prepared (h : Bound name c w) (failures : ℕ → Option String) :
    Bound name c (w.prepared failures) := by
  cases h with
  | inactive u hcell hconn hactive htxn => exact .inactive u hcell hconn hactive htxn
  | active u hcell hconn hactive transaction hwork htxn husers hposts htags =>
    exact .active u hcell hconn hactive transaction hwork htxn husers hposts htags

/-- What `Cleanup` leaves. -/
theorem bound_cleaned {k : Connection} (hconn : u.conn = some c)
    (heffect : Effect name u.cleaned c k w w') : Bound name c w' :=
  .inactive u.cleaned heffect.unit hconn rfl fun _ ↦ rfl

theorem Bound.begin : Maintains (Bound name c) (begin name) := by
  intro w h
  cases h with
  | active u hcell hconn hactive transaction hwork htxn husers hposts htags =>
    exact .of_error (begin_active hcell hactive)
      (.active u hcell hconn hactive transaction hwork htxn husers hposts htags)
  | inactive u hcell hconn hactive htxn =>
    refine (begin_spec hcell hactive hconn htxn).mono ?_ ?_
    · rintro - w' ⟨-, -, -, hholds⟩
      have hwork : (w'.connections c).work = some (w.transaction c) := by
        rw [hholds.effect.connection]
      exact .active _ hholds.effect.unit hconn rfl (w.transaction c) hwork rfl rfl rfl rfl
    · rintro stop w' ⟨-, u', hflag, hfails⟩
      cases hfails with
      | refused hcause heffect =>
        refine .inactive u heffect.unit hconn hflag ?_
        rw [heffect.connection]
        exact htxn
      | broken hopen hfree hcause hholds =>
        refine .inactive u' hholds.effect.unit hholds.conn hflag ?_
        rw [hholds.effect.connection]
        intro hnone
        cases hnone

theorem Bound.commit : Maintains (Bound name c) (commit name) := by
  intro w h
  cases h with
  | inactive u hcell hconn hactive htxn =>
    exact .of_error (commit_inactive hcell hactive) (.inactive u hcell hconn hactive htxn)
  | active u hcell hconn hactive transaction hwork htxn husers hposts htags =>
    refine (commit_spec hcell hactive htxn hwork).mono ?_ ?_
    · intro _ w' heffect
      exact bound_cleaned hconn heffect
    · rintro stop w' ⟨-, heffect⟩
      exact bound_cleaned hconn heffect

theorem Bound.rollback : Maintains (Bound name c) (rollback name) := by
  intro w h
  cases h with
  | inactive u hcell hconn hactive htxn =>
    have hunits : ((w.setUnit name u.cleaned).closed u.txn).units.cell name = some u.cleaned := by
      rw [units_closed]
      exact cell_setUnit ..
    exact .of_ok ((rollback_inactive hcell hactive).trans (cleanup_apply hcell))
      (.inactive u.cleaned hunits hconn rfl fun _ ↦ rfl)
  | active u hcell hconn hactive transaction hwork htxn husers hposts htags =>
    have hnumber : ∀ other, (w.connections c).work = some other →
        other.number = transaction.number := by
      intro other hother
      rw [Option.some.inj (hwork.symm.trans hother)]
    refine (rollback_active hcell hactive htxn hnumber).mono ?_ ?_
    · intro _ w' heffect
      exact bound_cleaned hconn heffect
    · rintro stop w' ⟨-, heffect⟩
      exact bound_cleaned hconn heffect

/-- A step keeps the repositories bound. -/
theorem Bound.step (h : Bound name c w) (hstep : TransactionStep name w w') : Bound name c w' :=
  hstep.keeps (fun _ failures hbound ↦ hbound.prepared failures) Bound.begin Bound.commit
    Bound.rollback h

end Bound

/-! ### The comments repository -/

/-- A unit of work has no comments repository. -/
def NoComments (name : ℕ) (w : World) : Prop :=
  ∀ u, w.units.cell name = some u → u.commentRepo = none

section NoComments

variable {name : ℕ} {w w' : World}

/-- No member makes a comments repository. -/
theorem stable_noComments (name : ℕ) : Stable (NoComments name) where
  called _ h := h
  setUnit w other u u' hcell hkept h v hv := by
    rcases cell_of_setUnit hv with ⟨rfl, rfl⟩ | hold
    · exact hkept.trans (h u hcell)
    · exact h v hold
  created w other conn h v hv := by
    rcases cell_of_setUnit hv with ⟨rfl, rfl⟩ | hold
    · rfl
    · exact h v hold
  released w other h v hv := by
    rw [World.released, Heap.cell_release] at hv
    split_ifs at hv
    exact h v hv
  opened _ _ h := h
  closed _ _ h := h
  committed _ _ _ _ h := h
  insertedUser _ _ _ _ _ h := ⟨h, fun _ _ _ ↦ h⟩
  insertedPost _ _ _ _ _ _ _ _ h := ⟨h, fun _ _ _ ↦ h⟩

theorem NoComments.step (h : NoComments name w) (hstep : TransactionStep name w w') :
    NoComments name w' :=
  hstep.keeps (fun _ _ hnone ↦ hnone) (stable_noComments name).begin
    (stable_noComments name).commit (stable_noComments name).rollback h

end NoComments

/-! ### What the accessors return -/

section Follows

open UnitOfWork

variable {name c : ℕ} {w start : World} {u : UnitOfWork} {accessor : Accessor}

theorem Accessor.member_eq (accessor : Accessor) : accessor.member = repository accessor.field := by
  cases accessor <;> rfl

/-- An accessor of an active unit of work returns the repository in its field. -/
theorem member_returns {work : Work} (hcell : w.units.cell name = some u)
    (hactive : u.isActive = true) (hfield : accessor.field u = some work) :
    accessor.member name w = .ok work w := by
  rw [accessor.member_eq, repository, bind_ok (readUnit_apply hcell), hactive, hfield]
  rfl

/-- An accessor throws when the unit of work is not active, and when there is no repository. -/
theorem member_throws (hcell : w.units.cell name = some u)
    (hnone : u.isActive = false ∨ accessor.field u = none) :
    accessor.member name w = .error (.thrown "Unit of work not started.") w := by
  rw [accessor.member_eq, repository, bind_ok (readUnit_apply hcell)]
  rcases hnone with hactive | hfield
  · rw [hactive]
    rfl
  · rw [hfield]
    cases u.isActive <;> rfl

/-- All states have their repositories bound, and none of them is for comments. -/
theorem TransactionState.bound (h : TransactionState name c w) :
    Bound name c w ∧ NoComments name w := by
  obtain ⟨start, hfresh, hsteps⟩ := h
  have hnone : NoComments name start := by
    intro u hcell
    rw [hfresh, Option.some.injEq] at hcell
    rw [← hcell]
    rfl
  have hbound : Bound name c start := .inactive _ hfresh rfl rfl fun _ ↦ rfl
  exact ⟨holds_of_reaches hbound (fun _ _ _ h ↦ h.step) hsteps,
    holds_of_reaches hnone (fun _ _ _ h ↦ h.step) hsteps⟩

/-- The repositories for users, posts and tags of an active unit of work. -/
theorem field_eq_txn (husers : u.userRepo = u.txn) (hposts : u.postRepo = u.txn)
    (htags : u.tagRepo = u.txn) (hne : accessor ≠ .comments) : accessor.field u = u.txn := by
  cases accessor with
  | users => exact husers
  | posts => exact hposts
  | tags => exact htags
  | comments => exact absurd rfl hne

/-- In every state that calls of `Begin`, `Commit` and `Rollback` lead to, an accessor follows the
transaction if and only if it is not `Comments()` of a unit of work that is active. -/
theorem follows_iff (hstate : TransactionState name c w) (accessor : Accessor) :
    accessor.Follows name w ↔
      ¬(accessor = .comments ∧ ∃ u, w.units.cell name = some u ∧ u.isActive = true) := by
  obtain ⟨hbound, hnone⟩ := hstate.bound
  constructor
  · rintro hfollows ⟨rfl, u, hcell, hactive⟩
    obtain ⟨work, hreturns, -⟩ := (hfollows u hcell).1 hactive
    have hthrows : Accessor.member .comments name w = .error _ w :=
      member_throws hcell (Or.inr (hnone u hcell))
    rw [hthrows] at hreturns
    cases hreturns
  · intro hcondition u hcell
    refine ⟨?_, fun hactive ↦ ⟨_, member_throws hcell (Or.inl hactive)⟩⟩
    intro hactive
    have hne : accessor ≠ .comments := by
      intro hcomments
      exact hcondition ⟨hcomments, u, hcell, hactive⟩
    cases hbound with
    | inactive u' hcell' _ hactive' _ =>
      rw [hcell, Option.some.injEq] at hcell'
      rw [hcell', hactive'] at hactive
      cases hactive
    | active u' hcell' _ _ transaction hwork htxn husers hposts htags =>
      rw [hcell, Option.some.injEq] at hcell'
      subst hcell'
      have hfield := (field_eq_txn husers hposts htags hne).trans htxn
      refine ⟨_, member_returns hcell hactive hfield, htxn, ?_⟩
      simp [World.open?, hwork]

/-- Nothing is in the tables, and one unit of work was constructed. -/
def oneUnit : World :=
  (World.start (fun _ ↦ ⟨true, ⟨[], []⟩, 1, 1, none⟩) fun _ ↦ "2026-01-01 00:00:00+00").setUnit 0
    (.fresh (some 0))

/-- The unit of work after one `Begin`. -/
theorem begin_oneUnit : ∃ w, TransactionState 0 0 w ∧
    ∃ u, w.units.cell 0 = some u ∧ u.isActive = true := by
  have hbegin : ∃ w, UnitOfWork.begin 0 (oneUnit.prepared fun _ ↦ none) = .ok () w ∧
      ∃ u, w.units.cell 0 = some u ∧ u.isActive = true := ⟨_, rfl, _, rfl, rfl⟩
  obtain ⟨w, hrun, hactive⟩ := hbegin
  refine ⟨w, ⟨oneUnit, rfl, .single ⟨⟨.begin 0, fun _ ↦ none⟩, ?_, .returns ?_ hrun⟩⟩, hactive⟩
  · exact List.mem_cons_self
  · exact Option.some_ne_none _

/-- After `Begin` the users repository is bound to the work that was opened. -/
theorem follows_iff_begin : ∃ w, (∃ u, w.units.cell 0 = some u ∧ u.isActive = true) ∧
    Accessor.Follows .users 0 w := by
  obtain ⟨w, hstate, hactive⟩ := begin_oneUnit
  exact ⟨w, hactive, (follows_iff hstate .users).mpr fun hcomments ↦ nomatch hcomments.1⟩

/-- After `Begin` there is no comments repository. -/
theorem comments_breaks_following :
    ¬∀ (name c : ℕ) (w : World), TransactionState name c w →
      ∀ accessor : Accessor, accessor.Follows name w := by
  intro hall
  obtain ⟨w, hstate, u, hcell, hactive⟩ := begin_oneUnit
  obtain ⟨work, hreturns, -⟩ := (hall 0 0 w hstate .comments u hcell).1 hactive
  have hthrows : Accessor.member .comments 0 w = .error _ w :=
    member_throws hcell (Or.inr (hstate.bound.2 u hcell))
  rw [hthrows] at hreturns
  cases hreturns

end Follows

end StudStuff.Dbms
