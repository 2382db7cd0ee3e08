import StudStuff.Dbms.Effects

/-!
# The lifecycle of units of work

`Begin`, `Commit`, `Rollback`, the moves and the destruction of any number of units of work over
distinct connections, with any of the calls in them throwing. `Promises` is what callers rely on
in every state of a run: a unit of work is active exactly when it owns an open work, after a `Begin`
that failed it owns none and can begin again, and no member accesses a null pointer.

The promises are kept in a run exactly when all its steps are careful (`promises_iff_carefulRun`):
nothing begins that has been moved from and so has no connection, once `Begin` has opened a work no
repository fails to be made, and nothing is moved from a unit of work that is active. Otherwise
`Begin` dereferences `conn_`, or clears the flag and leaves the work open, or the flag is copied and
stays set.
-/

set_option autoImplicit false
set_option relaxedAutoImplicit false

namespace StudStuff.Dbms

open Lib

/-! ### Runs -/

/-- An operation on units of work. -/
inductive LifeOp
  | construct (name connection : ℕ)
  | begin (name : ℕ)
  | commit (name : ℕ)
  | rollback (name : ℕ)
  | moveConstruct (name source : ℕ)
  | moveAssign (name source : ℕ)
  | destroy (name : ℕ)
  deriving DecidableEq, Repr

/-- The member that an operation calls. -/
def LifeOp.member : LifeOp → DbM Unit
  | .construct name connection => UnitOfWork.construct name (some connection)
  | .begin name => UnitOfWork.begin name
  | .commit name => UnitOfWork.commit name
  | .rollback name => UnitOfWork.rollback name
  | .moveConstruct name source => UnitOfWork.moveConstruct name source
  | .moveAssign name source => UnitOfWork.moveAssign name source
  | .destroy name => UnitOfWork.destroy name

/-- The precondition of an operation: its units of work exist, and a new one has a new name and a
connection of its own. -/
def LifeOp.Valid (w : World) : LifeOp → Prop
  | .construct name connection => w.units.cell name = none ∧
      ∀ other u, w.units.cell other = some u → u.conn ≠ some connection
  | .begin name | .commit name | .rollback name | .destroy name => w.units.cell name ≠ none
  | .moveConstruct name source => w.units.cell name = none ∧ w.units.cell source ≠ none
  | .moveAssign name source => w.units.cell name ≠ none ∧ w.units.cell source ≠ none

/-- An operation, and which of the calls in it throw. -/
structure Step where
  op : LifeOp
  failures : ℕ → Option String

/-- A step returns or throws, and the program goes on in either case. -/
inductive Step.Runs (step : Step) (w w' : World) : Prop
  | returns (hvalid : step.op.Valid w)
      (hrun : step.op.member (w.prepared step.failures) = .ok () w')
  | throws (hvalid : step.op.Valid w) (what : String)
      (hrun : step.op.member (w.prepared step.failures) = .error (.thrown what) w')

/-- A step ends in an access through a null pointer, and the program does not go on. -/
def Step.Crashes (step : Step) (w : World) : Prop :=
  step.op.Valid w ∧ ∃ w', step.op.member (w.prepared step.failures) = .error .badAccess w'

/-- No unit of work exists yet, and no work is open. -/
def World.start (connections : ℕ → Connection) (clock : ℕ → String) : World where
  connections name := { connections name with work := none }
  units := .empty
  begun := 0
  clock := clock
  calls := 0
  failures _ := none

/-! ### The promises -/

/-- The unit of work owns an open work. -/
def World.ownsOpenWork (w : World) (u : UnitOfWork) : Bool := (u.txn.bind w.open?).isSome

/-- Every unit of work is active exactly when it owns an open work. -/
def World.Settled (w : World) : Prop :=
  ∀ name u, w.units.cell name = some u → (u.isActive = true ↔ w.ownsOpenWork u = true)

/-- After a `Begin` that failed the unit of work owns no open work, and a further `Begin` in which
nothing fails returns. A `Begin` that is turned away because the unit of work is active already
has not failed. -/
def Step.BeginsAgain (step : Step) (w w' : World) : Prop :=
  ∀ name u what, step.op = .begin name → w.units.cell name = some u → u.isActive = false →
    step.op.member (w.prepared step.failures) = .error (.thrown what) w' →
      (∀ u', w'.units.cell name = some u' → w'.ownsOpenWork u' = false) ∧
        ∃ w'', UnitOfWork.begin name (w'.prepared fun _ ↦ none) = .ok () w''

/-- What a run promises: every state it goes through is settled, no step crashes, and whatever
failed to begin can begin again. -/
def Promises : World → List Step → Prop
  | w, [] => w.Settled
  | w, step :: steps => w.Settled ∧ ¬step.Crashes w ∧ ∀ w', step.Runs w w' →
      step.BeginsAgain w w' ∧ Promises w' steps

/-- `Begin` is called where there is a connection, no repository fails to be made once it has opened
a work, and nothing is moved from a unit of work that is active, unless to itself. -/
def Step.Careful (step : Step) (w : World) : Prop :=
  match step.op with
  | .begin name => ∀ u, w.units.cell name = some u → u.isActive = false → u.conn ≠ none ∧
      (step.failures 0 = none → ∀ index ∈ [0, 1, 2], step.failures (0 + 1 + index) = none)
  | .moveConstruct _ source => ∀ u, w.units.cell source = some u → u.isActive = false
  | .moveAssign name source => name = source ∨
      ∀ u, w.units.cell source = some u → u.isActive = false
  | _ => True

/-- Every step of a run is careful. -/
def CarefulRun : World → List Step → Prop
  | _, [] => True
  | w, step :: steps => (step.op.Valid w → step.Careful w) ∧
      ∀ w', step.Runs w w' → CarefulRun w' steps

/-! ### The invariant -/

/-- The invariant of the runs that keep their promises. An open work belongs to the active unit of
work that has the connection, and no two units of work have a connection in common. -/
structure Consistent (w : World) : Prop where
  held : ∀ name u, w.units.cell name = some u → u.isActive = false ∧ u.txn = none ∨
    u.isActive = true ∧ ∃ c transaction, u.conn = some c ∧
      u.txn = some ⟨c, transaction.number⟩ ∧ (w.connections c).work = some transaction
  owner : ∀ c transaction, (w.connections c).work = some transaction →
    ∃ name u, w.units.cell name = some u ∧ u.conn = some c ∧ u.isActive = true
  distinct : ∀ name name' u u' c, w.units.cell name = some u → w.units.cell name' = some u' →
    u.conn = some c → u'.conn = some c → name = name'

section Consistent

variable {w w' : World} {name c : ℕ} {u u' : UnitOfWork} {k : Connection}

theorem Consistent.prepared (h : Consistent w) (failures : ℕ → Option String) :
    Consistent (w.prepared failures) :=
  ⟨h.held, h.owner, h.distinct⟩

theorem Consistent.txn_eq_none (h : Consistent w) (hcell : w.units.cell name = some u)
    (hactive : u.isActive = false) : u.txn = none := by
  rcases h.held name u hcell with ⟨-, htxn⟩ | ⟨htrue, -⟩
  · exact htxn
  · rw [hactive] at htrue
    cases htrue

/-- The connection of a unit of work that is not active has no open work. -/
theorem Consistent.work_eq_none (h : Consistent w) (hcell : w.units.cell name = some u)
    (hactive : u.isActive = false) (hconn : u.conn = some c) : (w.connections c).work = none := by
  by_contra hwork
  obtain ⟨transaction, hwork⟩ := Option.ne_none_iff_exists'.mp hwork
  obtain ⟨name', u', hcell', hconn', htrue⟩ := h.owner c transaction hwork
  obtain rfl := h.distinct name name' u u' c hcell hcell' hconn hconn'
  rw [hcell, Option.some.injEq] at hcell'
  rw [← hcell', hactive] at htrue
  cases htrue

theorem Consistent.active (h : Consistent w) (hcell : w.units.cell name = some u)
    (hactive : u.isActive = true) : ∃ c transaction, u.conn = some c ∧
      u.txn = some ⟨c, transaction.number⟩ ∧ (w.connections c).work = some transaction := by
  rcases h.held name u hcell with ⟨hfalse, -⟩ | ⟨-, hholds⟩
  · rw [hactive] at hfalse
    cases hfalse
  · exact hholds

/-- An active unit of work is not one that is not active. -/
theorem ne_of_active {v : UnitOfWork} {other : ℕ} (hcell : w.units.cell name = some u)
    (hactive : u.isActive = false) (hv : w.units.cell other = some v)
    (htrue : v.isActive = true) : other ≠ name := by
  rintro rfl
  rw [hcell, Option.some.injEq] at hv
  rw [← hv, hactive] at htrue
  cases htrue

/-- The units of work after one of them was written. -/
theorem cell_of_setUnit {v : UnitOfWork} {other : ℕ}
    (hv : (w.setUnit name u').units.cell other = some v) :
    other = name ∧ v = u' ∨ w.units.cell other = some v := by
  rw [World.setUnit, Heap.cell_store] at hv
  split_ifs at hv with hother
  · exact Or.inl ⟨hother, (Option.some.inj hv).symm⟩
  · exact Or.inr hv

/-- A consistent state is settled. -/
theorem Consistent.settled (h : Consistent w) : w.Settled := by
  intro name u hcell
  rcases h.held name u hcell with ⟨hactive, htxn⟩ | ⟨hactive, c, transaction, -, htxn, hwork⟩
  · simp [World.ownsOpenWork, hactive, htxn]
  · simp [World.ownsOpenWork, World.open?, hactive, htxn, hwork]

/-- One unit of work changed together with its connection, and is consistent with it. -/
theorem Consistent.effect (h : Consistent w) (hcell : w.units.cell name = some u)
    (hconn : u.conn = some c) (heffect : Effect name u' c k w w') (hconn' : u'.conn = some c)
    (hpair : u'.isActive = false ∧ u'.txn = none ∧ k.work = none ∨
      u'.isActive = true ∧ ∃ transaction, u'.txn = some ⟨c, transaction.number⟩ ∧
        k.work = some transaction) : Consistent w' := by
  have hold (other : ℕ) (v : UnitOfWork) (hv : w'.units.cell other = some v) :
      ∃ v', w.units.cell other = some v' ∧ v'.conn = v.conn := by
    by_cases hother : other = name
    · subst hother
      rw [heffect.unit, Option.some.injEq] at hv
      exact ⟨u, hcell, by rw [hconn, ← hv, hconn']⟩
    · rw [heffect.units other hother] at hv
      exact ⟨v, hv, rfl⟩
  refine ⟨fun other v hv ↦ ?_, fun c' transaction hwork ↦ ?_,
    fun other other' v v' c' hv hv' hvc hvc' ↦ ?_⟩
  · by_cases hother : other = name
    · subst hother
      rw [heffect.unit, Option.some.injEq] at hv
      subst hv
      rcases hpair with ⟨hactive, htxn, -⟩ | ⟨hactive, transaction, htxn, hwork⟩
      · exact Or.inl ⟨hactive, htxn⟩
      · exact Or.inr ⟨hactive, c, transaction, hconn', htxn, by rw [heffect.connection, hwork]⟩
    · rw [heffect.units other hother] at hv
      refine (h.held other v hv).imp_right ?_
      rintro ⟨hactive, c', transaction, hvc, htxn, hwork⟩
      refine ⟨hactive, c', transaction, hvc, htxn, ?_⟩
      rw [heffect.connections c', hwork]
      rintro rfl
      exact hother (h.distinct other name v u c' hv hcell hvc hconn)
  · by_cases hc : c' = c
    · subst hc
      rw [heffect.connection] at hwork
      rcases hpair with ⟨-, -, hnone⟩ | ⟨hactive, -⟩
      · rw [hnone] at hwork
        cases hwork
      · exact ⟨name, u', heffect.unit, hconn', hactive⟩
    · rw [heffect.connections c' hc] at hwork
      obtain ⟨other, v, hv, hvc, hactive⟩ := h.owner c' transaction hwork
      refine ⟨other, v, ?_, hvc, hactive⟩
      rw [heffect.units other, hv]
      rintro rfl
      rw [hcell, Option.some.injEq] at hv
      rw [← hv, hconn, Option.some.injEq] at hvc
      exact hc hvc.symm
  · obtain ⟨z, hz, hzc⟩ := hold other v hv
    obtain ⟨z', hz', hzc'⟩ := hold other' v' hv'
    exact h.distinct other other' z z' c' hz hz' (hzc.trans hvc) (hzc'.trans hvc')

/-- Only units of work that are not active changed. -/
theorem Consistent.of_inactive (h : Consistent w) (hconnections : w'.connections = w.connections)
    (hkept : ∀ name u, w.units.cell name = some u → u.isActive = true →
      w'.units.cell name = some u)
    (hnew : ∀ name u, w'.units.cell name = some u → w.units.cell name = some u ∨
      u.isActive = false ∧ u.txn = none)
    (hdistinct : ∀ name name' u u' c, w'.units.cell name = some u → w'.units.cell name' = some u' →
      u.conn = some c → u'.conn = some c → name = name') : Consistent w' := by
  refine ⟨fun name u hcell ↦ ?_, fun c transaction hwork ↦ ?_, hdistinct⟩
  · rw [hconnections]
    rcases hnew name u hcell with hold | hinactive
    · exact h.held name u hold
    · exact Or.inl hinactive
  · rw [hconnections] at hwork
    obtain ⟨name, u, hcell, hconn, hflag⟩ := h.owner c transaction hwork
    exact ⟨name, u, hkept name u hcell hflag, hconn, hflag⟩

/-- A unit of work that is not active was changed, and kept its connection. -/
theorem Consistent.setInactive (h : Consistent w) (hcell : w.units.cell name = some u)
    (hactive : u.isActive = false) (hflag : u'.isActive = false) (htxn : u'.txn = none)
    (hconn : u'.conn = u.conn) : Consistent (w.setUnit name u') := by
  have hholder (other : ℕ) (v : UnitOfWork) (hv : (w.setUnit name u').units.cell other = some v) :
      ∃ v', w.units.cell other = some v' ∧ v'.conn = v.conn := by
    rcases cell_of_setUnit hv with ⟨rfl, rfl⟩ | hv
    · exact ⟨u, hcell, hconn.symm⟩
    · exact ⟨v, hv, rfl⟩
  refine h.of_inactive rfl (fun other v hv htrue ↦ ?_) (fun other v hv ↦ ?_)
    fun other other' v v' c hv hv' hvc hvc' ↦ ?_
  · rw [World.setUnit, Heap.cell_store, if_neg (ne_of_active hcell hactive hv htrue), hv]
  · rcases cell_of_setUnit hv with ⟨-, rfl⟩ | hv
    · exact Or.inr ⟨hflag, htxn⟩
    · exact Or.inl hv
  · obtain ⟨z, hz, hzc⟩ := hholder other v hv
    obtain ⟨z', hz', hzc'⟩ := hholder other' v' hv'
    exact h.distinct other other' z z' c hz hz' (hzc.trans hvc) (hzc'.trans hvc')

/-- The fields of a unit of work that is not active moved to another one, which was not active. -/
theorem Consistent.move (h : Consistent w) {source : ℕ} (hsource : w.units.cell source = some u)
    (hactive : u.isActive = false)
    (hname : ∀ v, w.units.cell name = some v → v.isActive = false)
    (hconnections : w'.connections = w.connections) (hcell : w'.units.cell name = some u)
    (hmoved : w'.units.cell source = some u.movedFrom)
    (hothers : ∀ other, other ≠ name → other ≠ source →
      w'.units.cell other = w.units.cell other) : Consistent w' := by
  have htxn := h.txn_eq_none hsource hactive
  -- what a unit of work with a connection was called before the move
  have hholder (other : ℕ) (v : UnitOfWork) (c : ℕ) (hv : w'.units.cell other = some v)
      (hconn : v.conn = some c) : ∃ v', w.units.cell (if other = name then source else other) =
        some v' ∧ v'.conn = some c ∧ other ≠ source := by
    have hne : other ≠ source := by
      rintro rfl
      rw [hmoved, Option.some.injEq] at hv
      rw [← hv] at hconn
      cases hconn
    by_cases hother : other = name
    · rw [hother, hcell, Option.some.injEq] at hv
      rw [if_pos hother]
      exact ⟨u, hsource, hv ▸ hconn, hne⟩
    · rw [hothers other hother hne] at hv
      rw [if_neg hother]
      exact ⟨v, hv, hconn, hne⟩
  refine h.of_inactive hconnections (fun other v hv htrue ↦ ?_) (fun other v hv ↦ ?_)
    fun other other' v v' c hv hv' hvc hvc' ↦ ?_
  · have hother : other ≠ name := by
      rintro rfl
      rw [hname v hv] at htrue
      cases htrue
    rw [hothers other hother (ne_of_active hsource hactive hv htrue), hv]
  · by_cases hother : other = name
    · rw [hother, hcell, Option.some.injEq] at hv
      exact Or.inr (hv ▸ ⟨hactive, htxn⟩)
    · by_cases hother' : other = source
      · rw [hother', hmoved, Option.some.injEq] at hv
        exact Or.inr (hv ▸ ⟨hactive, rfl⟩)
      · exact Or.inl ((hothers other hother hother').symm.trans hv)
  · obtain ⟨z, hz, hzc, hne⟩ := hholder other v c hv hvc
    obtain ⟨z', hz', hzc', hne'⟩ := hholder other' v' c hv' hvc'
    have hsame := h.distinct _ _ z z' c hz hz' hzc hzc'
    split_ifs at hsame with hother hother' hother'
    · rw [hother, hother']
    · exact absurd hsame.symm hne'
    · exact absurd hsame hne
    · exact hsame

/-- The lifetime of a unit of work that is not active ended. -/
theorem Consistent.released (h : Consistent w) (hcell : w.units.cell name = some u)
    (hactive : u.isActive = false) : Consistent (w.released name) := by
  have hold (other : ℕ) (v : UnitOfWork) (hv : (w.released name).units.cell other = some v) :
      w.units.cell other = some v := by
    rw [World.released, Heap.cell_release] at hv
    split_ifs at hv
    exact hv
  refine h.of_inactive rfl (fun other v hv htrue ↦ ?_) (fun other v hv ↦ Or.inl (hold other v hv))
    fun other other' v v' c hv hv' ↦
      h.distinct other other' v v' c (hold other v hv) (hold other' v' hv')
  rw [World.released, Heap.cell_release, if_neg (ne_of_active hcell hactive hv htrue), hv]

end Consistent

/-! ### Steps -/

section Steps

open UnitOfWork

variable {w w' : World} {name source c : ℕ} {u v : UnitOfWork}

/-- What a member leaves when it returns or throws holds after the step. -/
theorem Step.Runs.of_meets {step : Step} (h : step.Runs w w') (after : World → Prop)
    (hmeets : Meets step.op.member (fun _ ↦ after)
      (fun stop w' ↦ stop ≠ .badAccess → after w') (w.prepared step.failures)) : after w' := by
  cases h with
  | returns hvalid hrun => exact hmeets.ok hrun
  | throws hvalid what hrun => exact hmeets.error hrun (by simp)

/-- A careful `Begin` in a consistent state. -/
theorem Consistent.begin (h : Consistent w) (hcell : w.units.cell name = some u)
    (hcareful : u.isActive = false → u.conn ≠ none ∧ (w.failures w.calls = none →
      ∀ index ∈ [0, 1, 2], w.failures (w.calls + 1 + index) = none)) :
    Meets (begin name) (fun _ ↦ Consistent)
      (Throws fun w' ↦ Consistent w' ∧ (u.isActive = false →
        w'.units.cell name = some u ∧ ∃ c, u.conn = some c ∧ (w'.connections c).work = none))
      w := by
  cases hactive : u.isActive with
  | true =>
    exact .of_error (begin_active hcell hactive) ⟨⟨_, rfl⟩, h, fun hfalse ↦ by cases hfalse⟩
  | false =>
    have htxn := h.txn_eq_none hcell hactive
    obtain ⟨hconnection, hmade⟩ := hcareful hactive
    obtain ⟨c, hconn⟩ := Option.ne_none_iff_exists'.mp hconnection
    have hwork := h.work_eq_none hcell hactive hconn
    refine (begin_spec hcell hactive hconn fun _ ↦ htxn).mono ?_ ?_
    · rintro - w' ⟨-, -, -, hholds⟩
      exact h.effect hcell hconn hholds.effect hconn (Or.inr ⟨rfl, _, rfl, rfl⟩)
    · rintro stop w' ⟨hthrown, u', hflag, hfails⟩
      cases hfails with
      | refused hcause heffect =>
        refine ⟨hthrown, h.effect hcell hconn heffect hconn (Or.inl ⟨hactive, htxn, hwork⟩),
          fun _ ↦ ⟨heffect.unit, c, hconn, ?_⟩⟩
        rw [heffect.connection, hwork]
      | broken hopen _ hcause _ =>
        obtain ⟨index, hindex, hne⟩ := hcause
        exact absurd (hmade hopen index hindex) hne

theorem Consistent.commit (h : Consistent w) (hcell : w.units.cell name = some u) :
    Meets (commit name) (fun _ ↦ Consistent) (Throws Consistent) w := by
  cases hactive : u.isActive with
  | false => exact .of_error (commit_inactive hcell hactive) ⟨⟨_, rfl⟩, h⟩
  | true =>
    obtain ⟨c, transaction, hconn, htxn, hwork⟩ := h.active hcell hactive
    refine (commit_spec hcell hactive htxn hwork).mono ?_ ?_
    · intro _ w' heffect
      exact h.effect hcell hconn heffect hconn (Or.inl ⟨rfl, rfl, rfl⟩)
    · rintro stop w' ⟨hthrown, heffect⟩
      exact ⟨hthrown, h.effect hcell hconn heffect hconn (Or.inl ⟨rfl, rfl, rfl⟩)⟩

theorem Consistent.rollback (h : Consistent w) (hcell : w.units.cell name = some u) :
    Meets (rollback name) (fun _ ↦ Consistent) (Throws Consistent) w := by
  cases hactive : u.isActive with
  | false =>
    have hrun := (rollback_inactive hcell hactive).trans (cleanup_apply hcell)
    rw [h.txn_eq_none hcell hactive] at hrun
    exact .of_ok hrun (h.setInactive hcell hactive rfl rfl rfl)
  | true =>
    obtain ⟨c, transaction, hconn, htxn, hwork⟩ := h.active hcell hactive
    have hnumber (other : OpenWork) (hother : (w.connections c).work = some other) :
        other.number = transaction.number :=
      congrArg OpenWork.number (Option.some.inj (hother.symm.trans hwork))
    refine (rollback_active hcell hactive htxn hnumber).mono ?_ ?_
    · intro _ w' heffect
      exact h.effect hcell hconn heffect hconn (Or.inl ⟨rfl, rfl, rfl⟩)
    · rintro stop w' ⟨hthrown, heffect⟩
      exact ⟨hthrown, h.effect hcell hconn heffect hconn (Or.inl ⟨rfl, rfl, rfl⟩)⟩

/-- A new unit of work has a connection of its own. -/
theorem Consistent.construct (h : Consistent w) (hfresh : w.units.cell name = none)
    (hown : ∀ other u, w.units.cell other = some u → u.conn ≠ some c) :
    Meets (construct name (some c)) (fun _ ↦ Consistent) (Throws Consistent) w := by
  have hrun : UnitOfWork.construct name (some c) w =
      .ok () (w.setUnit name (.fresh (some c))) := rfl
  refine .of_ok hrun ?_
  refine h.of_inactive rfl (fun other v hv _ ↦ ?_) (fun other v hv ↦ ?_)
    fun other other' v v' c' hv hv' hvc hvc' ↦ ?_
  · rw [World.setUnit, Heap.cell_store, if_neg]
    · exact hv
    · rintro rfl
      rw [hfresh] at hv
      cases hv
  · rcases cell_of_setUnit hv with ⟨-, rfl⟩ | hv
    · exact Or.inr ⟨rfl, rfl⟩
    · exact Or.inl hv
  · rcases cell_of_setUnit hv with ⟨hname, rfl⟩ | hw
    · rcases cell_of_setUnit hv' with ⟨hname', -⟩ | hw'
      · rw [hname, hname']
      · exact absurd (hvc'.trans hvc.symm) (hown other' v' hw')
    · rcases cell_of_setUnit hv' with ⟨-, rfl⟩ | hw'
      · exact absurd (hvc.trans hvc'.symm) (hown other v hw)
      · exact h.distinct other other' v v' c' hw hw' hvc hvc'

theorem Consistent.moveConstruct (h : Consistent w) (hfresh : w.units.cell name = none)
    (hsource : w.units.cell source = some u) (hactive : u.isActive = false) :
    Meets (moveConstruct name source) (fun _ ↦ Consistent) (Throws Consistent) w := by
  have hne : source ≠ name := by
    rintro rfl
    rw [hfresh] at hsource
    cases hsource
  refine .of_ok (moveConstruct_apply hsource) (h.move hsource hactive (fun v hv ↦ ?_) rfl
    (cell_setUnit ..) ((if_neg hne).trans (cell_setUnit ..)) fun other hother hother' ↦
      (if_neg hother).trans (if_neg hother'))
  rw [hfresh] at hv
  cases hv

/-- The work of a unit of work was closed, if it had one. -/
theorem Consistent.cleaned (h : Consistent w) (hcell : w.units.cell name = some u) :
    Consistent ((w.closed u.txn).setUnit name u.cleaned) := by
  rw [← closed_setUnit]
  cases hactive : u.isActive with
  | false =>
    rw [h.txn_eq_none hcell hactive]
    exact h.setInactive hcell hactive rfl rfl rfl
  | true =>
    obtain ⟨c, transaction, hconn, htxn, hwork⟩ := h.active hcell hactive
    have heffect := ((Effect.refl (c := c) hcell).setUnit u.cleaned).closed fun other hother ↦
      congrArg OpenWork.number (Option.some.inj (hother.symm.trans hwork))
    rw [htxn]
    exact h.effect hcell hconn heffect hconn (Or.inl ⟨rfl, rfl, rfl⟩)

theorem Consistent.moveAssign (h : Consistent w) (hcell : w.units.cell name = some v)
    (hsource : w.units.cell source = some u) (hcareful : name = source ∨ u.isActive = false) :
    Meets (moveAssign name source) (fun _ ↦ Consistent) (Throws Consistent) w := by
  by_cases hsame : name = source
  · subst hsame
    exact .of_ok (moveAssign_self hcell) h
  · have hactive := hcareful.resolve_left hsame
    have hne : source ≠ name := fun heq ↦ hsame heq.symm
    have hunits (other : ℕ) (hother : other ≠ name) :
        ((w.closed v.txn).setUnit name v.cleaned).units.cell other = w.units.cell other := by
      rw [World.setUnit, Heap.cell_store, if_neg hother, units_closed]
    refine .of_ok (moveAssign_apply hcell hsource hsame) ((h.cleaned hcell).move
      ((hunits source hne).trans hsource) hactive (fun v' hv' ↦ ?_) rfl (cell_setUnit ..)
      ((if_neg hne).trans (cell_setUnit ..)) fun other hother hother' ↦ ?_)
    · rw [cell_setUnit, Option.some.injEq] at hv'
      rw [← hv']
      rfl
    · rw [hunits other hother, World.setUnit, Heap.cell_store, if_neg hother, World.setUnit,
        Heap.cell_store, if_neg hother', units_closed]

theorem Consistent.destroy (h : Consistent w) (hcell : w.units.cell name = some u) :
    Meets (destroy name) (fun _ ↦ Consistent) (Throws Consistent) w := by
  cases hactive : u.isActive with
  | false =>
    exact .of_ok (destroy_inactive hcell hactive (h.txn_eq_none hcell hactive))
      (h.released hcell hactive)
  | true =>
    obtain ⟨c, transaction, hconn, htxn, hwork⟩ := h.active hcell hactive
    obtain ⟨w', hrun, heffect⟩ := destroy_active hcell hactive htxn fun other hother ↦
      congrArg OpenWork.number (Option.some.inj (hother.symm.trans hwork))
    have hconsistent := h.effect hcell hconn heffect hconn (Or.inl ⟨rfl, rfl, rfl⟩)
    exact .of_ok hrun (hconsistent.released heffect.unit rfl)

end Steps

/-! ### Runs that keep their promises -/

section Promises

open UnitOfWork

variable {step : Step} {w w' : World}

theorem Step.Runs.valid (h : step.Runs w w') : step.op.Valid w := by
  cases h with
  | returns hvalid _ => exact hvalid
  | throws hvalid _ _ => exact hvalid

/-- A step that does not crash returns or throws. -/
theorem Step.exists_runs (hvalid : step.op.Valid w) (hsafe : ¬step.Crashes w) :
    ∃ w', step.Runs w w' := by
  cases hrun : step.op.member (w.prepared step.failures) with
  | ok value w' => exact ⟨w', .returns hvalid hrun⟩
  | error stop w' =>
    cases stop with
    | thrown what => exact ⟨w', .throws hvalid what hrun⟩
    | badAccess => exact absurd ⟨hvalid, w', hrun⟩ hsafe

/-- A careful step returns or throws and leaves a consistent state. There is one case for each
operation. -/
theorem Step.keeps (h : Consistent w) (hvalid : step.op.Valid w) (hcareful : step.Careful w) :
    Meets step.op.member (fun _ ↦ Consistent) (Throws Consistent) (w.prepared step.failures) := by
  have hw := h.prepared step.failures
  obtain ⟨op, failures⟩ := step
  cases op with
  | construct name connection => exact hw.construct hvalid.1 hvalid.2
  | begin name =>
    obtain ⟨u, hcell⟩ := Option.ne_none_iff_exists'.mp hvalid
    exact (hw.begin hcell (hcareful u hcell)).mono (fun _ _ ↦ id)
      fun _ _ ⟨hthrown, hkept, _⟩ ↦ ⟨hthrown, hkept⟩
  | commit name =>
    obtain ⟨u, hcell⟩ := Option.ne_none_iff_exists'.mp hvalid
    exact hw.commit hcell
  | rollback name =>
    obtain ⟨u, hcell⟩ := Option.ne_none_iff_exists'.mp hvalid
    exact hw.rollback hcell
  | moveConstruct name source =>
    obtain ⟨u, hsource⟩ := Option.ne_none_iff_exists'.mp hvalid.2
    exact hw.moveConstruct hvalid.1 hsource (hcareful u hsource)
  | moveAssign name source =>
    obtain ⟨v, hcell⟩ := Option.ne_none_iff_exists'.mp hvalid.1
    obtain ⟨u, hsource⟩ := Option.ne_none_iff_exists'.mp hvalid.2
    exact hw.moveAssign hcell hsource (hcareful.imp_right fun hall ↦ hall u hsource)
  | destroy name =>
    obtain ⟨u, hcell⟩ := Option.ne_none_iff_exists'.mp hvalid
    exact hw.destroy hcell

theorem Step.not_crashes (h : Consistent w) (hcareful : step.op.Valid w → step.Careful w) :
    ¬step.Crashes w := by
  rintro ⟨hvalid, w', hrun⟩
  obtain ⟨⟨what, hthrown⟩, -⟩ := (Step.keeps h hvalid (hcareful hvalid)).error hrun
  cases hthrown

theorem Step.Runs.consistent (hruns : step.Runs w w') (h : Consistent w)
    (hcareful : step.Careful w) : Consistent w' :=
  hruns.of_meets Consistent ((Step.keeps h hruns.valid hcareful).mono (fun _ _ ↦ id)
    fun _ _ hstop _ ↦ hstop.2)

/-- After a careful `Begin` that failed the unit of work can begin again. -/
theorem Step.beginsAgain (h : Consistent w) (hcareful : step.Careful w) :
    step.BeginsAgain w w' := by
  obtain ⟨op, failures⟩ := step
  rintro name u what rfl hcell hactive hrun
  have hmeets := (h.prepared failures).begin hcell (hcareful u hcell)
  obtain ⟨-, h', hfailed⟩ := hmeets.error hrun
  obtain ⟨hcell', c, hconn, hwork⟩ := hfailed hactive
  have htxn := h'.txn_eq_none hcell' hactive
  refine ⟨fun u' hu' ↦ ?_, begin_returns hcell' hactive hconn htxn hwork fun _ ↦ rfl⟩
  rw [hcell', Option.some.injEq] at hu'
  rw [← hu', World.ownsOpenWork, htxn]
  rfl

/-- A unit of work that was moved from keeps a flag that nothing stands behind. -/
theorem not_settled_of_moved {name : ℕ} {u : UnitOfWork} (hactive : u.isActive = true)
    (hcell : w.units.cell name = some u.movedFrom) : ¬w.Settled := by
  intro hsettled
  have howns := (hsettled name u.movedFrom hcell).mp hactive
  cases howns

/-- A unit of work whose repositories were not all made owns a work and is not active. -/
theorem not_settled_of_broken {name c : ℕ} {u : UnitOfWork} (hactive : u.isActive = false)
    (hholds : Holds name c w w' u) : ¬w'.Settled := by
  intro hsettled
  have howns : w'.ownsOpenWork u = true := by
    simp [World.ownsOpenWork, World.open?, hholds.txn, hholds.effect.connection, World.transaction]
  rw [(hsettled name u hholds.effect.unit).mpr howns] at hactive
  cases hactive

/-- A `Begin` in which a repository is not made leaves a state that is not settled. -/
theorem begin_breaks {name index : ℕ} {u : UnitOfWork} (h : Consistent w)
    (hcell : w.units.cell name = some u) (hactive : u.isActive = false)
    (hopen : w.failures w.calls = none) (hindex : index ∈ [0, 1, 2])
    (hne : w.failures (w.calls + 1 + index) ≠ none) :
    Meets (begin name) (fun _ w' ↦ ¬w'.Settled) (fun stop w' ↦ stop ≠ .badAccess → ¬w'.Settled)
      w := by
  cases hconn : u.conn with
  | none => exact .of_error (begin_null hcell hactive hconn) fun hbad ↦ absurd rfl hbad
  | some c =>
    have hwork := h.work_eq_none hcell hactive hconn
    refine (begin_spec hcell hactive hconn fun _ ↦ h.txn_eq_none hcell hactive).mono ?_ ?_
    · rintro - w' ⟨-, -, hmade, -⟩
      exact absurd (hmade index hindex) hne
    · rintro stop w' ⟨-, u', hflag, hfails⟩ -
      cases hfails with
      | refused hcause _ => exact absurd hcause (by simp [hopen, hwork])
      | broken _ _ _ hholds => exact not_settled_of_broken hflag hholds

/-- A step that is not careful crashes or leaves a state that is not settled. -/
theorem Step.Runs.careful (hruns : step.Runs w w') (h : Consistent w) (hsettled : w'.Settled) :
    step.Careful w := by
  have hvalid := hruns.valid
  have hw := h.prepared step.failures
  obtain ⟨op, failures⟩ := step
  cases op with
  | begin name =>
    intro u hcell hactive
    refine ⟨fun hconn ↦ ?_, fun hopen index hindex ↦ ?_⟩
    · have hnull := begin_null (show (w.prepared failures).units.cell name = some u from hcell)
        hactive hconn
      cases hruns with
      | returns _ hrun => cases hnull.symm.trans hrun
      | throws _ what hrun => cases hnull.symm.trans hrun
    · by_contra hne
      have hbroken := begin_breaks hw hcell hactive hopen hindex hne
      exact hruns.of_meets (¬·.Settled) hbroken hsettled
  | moveConstruct name source =>
    intro u hsource
    by_contra hactive
    rw [Bool.not_eq_false] at hactive
    have hne : source ≠ name := by
      rintro rfl
      rw [hvalid.1] at hsource
      cases hsource
    exact hruns.of_meets (¬·.Settled) (.of_ok (moveConstruct_apply hsource)
      (not_settled_of_moved hactive ((if_neg hne).trans (cell_setUnit ..)))) hsettled
  | moveAssign name source =>
    by_cases hsame : name = source
    · exact Or.inl hsame
    · right
      intro u hsource
      by_contra hactive
      rw [Bool.not_eq_false] at hactive
      obtain ⟨v, hcell⟩ := Option.ne_none_iff_exists'.mp hvalid.1
      have hne : source ≠ name := fun heq ↦ hsame heq.symm
      exact hruns.of_meets (¬·.Settled) (.of_ok (moveAssign_apply hcell hsource hsame)
        (not_settled_of_moved hactive ((if_neg hne).trans (cell_setUnit ..)))) hsettled
  | construct name connection => trivial
  | commit name => trivial
  | rollback name => trivial
  | destroy name => trivial

/-- Nothing is inconsistent before the first step. -/
theorem consistent_start (connections : ℕ → Connection) (clock : ℕ → String) :
    Consistent (.start connections clock) := by
  refine ⟨fun name u hcell ↦ ?_, fun c transaction hwork ↦ ?_, fun name name' u u' c hcell ↦ ?_⟩
  · cases hcell
  · cases hwork
  · cases hcell

theorem Promises.settled {steps : List Step} (h : Promises w steps) : w.Settled := by
  cases steps with
  | nil => exact h
  | cons step steps => exact h.1

theorem promises_iff (h : Consistent w) (steps : List Step) :
    Promises w steps ↔ CarefulRun w steps := by
  induction steps generalizing w with
  | nil => exact ⟨fun _ ↦ trivial, fun _ ↦ h.settled⟩
  | cons step steps ih =>
    constructor
    · rintro ⟨-, hsafe, hrest⟩
      refine ⟨fun hvalid ↦ ?_, fun w' hruns ↦ ?_⟩
      · obtain ⟨w', hruns⟩ := Step.exists_runs hvalid hsafe
        exact hruns.careful h (hrest w' hruns).2.settled
      · obtain ⟨-, hpromises⟩ := hrest w' hruns
        have hcareful := hruns.careful h hpromises.settled
        exact (ih (hruns.consistent h hcareful)).mp hpromises
    · rintro ⟨hcareful, hrest⟩
      refine ⟨h.settled, Step.not_crashes h hcareful, fun w' hruns ↦ ?_⟩
      have hstep := hcareful hruns.valid
      exact ⟨Step.beginsAgain h hstep, (ih (hruns.consistent h hstep)).mpr (hrest w' hruns)⟩

end Promises

end StudStuff.Dbms
