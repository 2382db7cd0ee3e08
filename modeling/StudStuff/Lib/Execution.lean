import Mathlib.Data.Nat.Notation
import Mathlib.Order.Notation

/-!
# Running programs with state and exceptions

The rules by which a program in `EStateM` is executed on a given state, for any type of states and
any type of exceptions. `bind_ok` runs the first of two programs when its result is known,
`bind_error` stops at the first one, and `exists_of_bind_ok` takes a run of two programs apart.
`Keeps` is the frame rule: what a program leaves as it is, whenever it returns. `catching` is a
handler that sees the state in which the program stopped, and `Meets` says what holds when a
program returns and what holds when it stops. `Converges` is total correctness, for programs with a
bound on their steps. `Maintains` is the rule of an invariant, which holds whether it returns or
stops.
-/

set_option autoImplicit false
set_option relaxedAutoImplicit false

namespace StudStuff.Lib

section Execution

variable {ε σ α β : Type}

theorem bind_apply (program : EStateM ε σ α) (next : α → EStateM ε σ β) (s : σ) :
    (program >>= next) s = match program s with
      | .ok value s' => next value s'
      | .error stop s' => .error stop s' := by
  simp only [bind, EStateM.bind]
  cases program s <;> rfl

theorem bind_ok {program : EStateM ε σ α} {next : α → EStateM ε σ β} {s s' : σ} {value : α}
    (h : program s = .ok value s') : (program >>= next) s = next value s' := by
  rw [bind_apply, h]

theorem bind_error {program : EStateM ε σ α} {next : α → EStateM ε σ β} {s s' : σ} {stop : ε}
    (h : program s = .error stop s') : (program >>= next) s = .error stop s' := by
  rw [bind_apply, h]

theorem exists_of_bind_ok {program : EStateM ε σ α} {next : α → EStateM ε σ β} {s s' : σ}
    {value : β} (h : (program >>= next) s = .ok value s') :
    ∃ value₁ s₁, program s = .ok value₁ s₁ ∧ next value₁ s₁ = .ok value s' := by
  rw [bind_apply] at h
  cases hfirst : program s with
  | ok value₁ s₁ =>
    rw [hfirst] at h
    exact ⟨value₁, s₁, rfl, h⟩
  | error stop s₁ =>
    rw [hfirst] at h
    cases h

/-- The same for exceptions without state. -/
theorem exists_of_except_bind {program : Except ε α} {next : α → Except ε β} {value : β}
    (h : (program >>= next) = .ok value) :
    ∃ value₁, program = .ok value₁ ∧ next value₁ = .ok value := by
  cases program with
  | ok value₁ => exact ⟨value₁, rfl, h⟩
  | error stop => cases h

@[simp] theorem pure_apply (value : α) (s : σ) : (pure value : EStateM ε σ α) s = .ok value s :=
  rfl

@[simp] theorem get_apply (s : σ) : (get : EStateM ε σ σ) s = .ok s s := rfl

@[simp] theorem set_apply (s s' : σ) : (set s' : EStateM ε σ PUnit) s = .ok () s' := rfl

@[simp] theorem modify_apply (change : σ → σ) (s : σ) :
    (modify change : EStateM ε σ Unit) s = .ok () (change s) :=
  rfl

end Execution

/-! ### Frames -/

section Frames

variable {ε σ α β γ : Type} {observe : σ → γ}

/-- Whenever the program returns, it left what is observed of the state as it was. -/
def Keeps (observe : σ → γ) (program : EStateM ε σ α) : Prop :=
  ∀ s value s', program s = .ok value s' → observe s' = observe s

theorem Keeps.pure {value : α} : Keeps observe (pure value : EStateM ε σ α) := by
  intro s value' s' h
  cases h
  rfl

theorem Keeps.throw {stop : ε} : Keeps observe (throw stop : EStateM ε σ α) := by
  intro s value s' h
  cases h

theorem Keeps.get : Keeps observe (get : EStateM ε σ σ) := by
  intro s value s' h
  cases h
  rfl

theorem Keeps.modify {change : σ → σ} (hchange : ∀ s, observe (change s) = observe s) :
    Keeps observe (modify change : EStateM ε σ Unit) := by
  intro s value s' h
  cases h
  exact hchange s

theorem Keeps.bind {program : EStateM ε σ α} {next : α → EStateM ε σ β}
    (h : Keeps observe program) (hnext : ∀ value, Keeps observe (next value)) :
    Keeps observe (program >>= next) := by
  intro s value s' hrun
  obtain ⟨value₁, s₁, hfirst, hrest⟩ := exists_of_bind_ok hrun
  exact (hnext value₁ s₁ value s' hrest).trans (h s value₁ s₁ hfirst)

theorem Keeps.ite {condition : Prop} [Decidable condition] {first second : EStateM ε σ α}
    (h : Keeps observe first) (h' : Keeps observe second) :
    Keeps observe (if condition then first else second) := by
  by_cases hcondition : condition
  · rwa [if_pos hcondition]
  · rwa [if_neg hcondition]

end Frames

/-! ### Handlers and postconditions -/

section Postconditions

variable {ε σ α β : Type}

/-- Run a program, and the handler if it stops. What the program did to the state stays. -/
def catching (program : EStateM ε σ α) (handler : ε → EStateM ε σ α) : EStateM ε σ α := fun s ↦
  match program s with
  | .ok value s' => .ok value s'
  | .error stop s' => handler stop s'

theorem catching_ok {program : EStateM ε σ α} {s s' : σ} {value : α}
    (h : program s = .ok value s') (handler : ε → EStateM ε σ α) :
    catching program handler s = .ok value s' := by
  rw [catching, h]

theorem catching_error {program : EStateM ε σ α} {s s' : σ} {stop : ε}
    (h : program s = .error stop s') (handler : ε → EStateM ε σ α) :
    catching program handler s = handler stop s' := by
  rw [catching, h]

/-- A program meets a postcondition for its return and one for its stop. -/
def Meets (program : EStateM ε σ α) (returns : α → σ → Prop) (stops : ε → σ → Prop) (s : σ) :
    Prop :=
  match program s with
  | .ok value s' => returns value s'
  | .error stop s' => stops stop s'

variable {program : EStateM ε σ α} {returns returns' : α → σ → Prop} {stops stops' : ε → σ → Prop}
  {s s' : σ}

theorem Meets.of_ok {value : α} (hrun : program s = .ok value s') (h : returns value s') :
    Meets program returns stops s := by
  rw [Meets, hrun]
  exact h

theorem Meets.of_error {stop : ε} (hrun : program s = .error stop s') (h : stops stop s') :
    Meets program returns stops s := by
  rw [Meets, hrun]
  exact h

theorem Meets.ok {value : α} (h : Meets program returns stops s)
    (hrun : program s = .ok value s') : returns value s' := by
  rw [Meets, hrun] at h
  exact h

theorem Meets.error {stop : ε} (h : Meets program returns stops s)
    (hrun : program s = .error stop s') : stops stop s' := by
  rw [Meets, hrun] at h
  exact h

/-- The rule of conjunction. -/
theorem Meets.and (h : Meets program returns stops s) (h' : Meets program returns' stops' s) :
    Meets program (fun value s' ↦ returns value s' ∧ returns' value s')
      (fun stop s' ↦ stops stop s' ∧ stops' stop s') s := by
  cases hrun : program s with
  | ok value s' => exact .of_ok hrun ⟨h.ok hrun, h'.ok hrun⟩
  | error stop s' => exact .of_error hrun ⟨h.error hrun, h'.error hrun⟩

/-- A run that goes on as another program in another state. -/
theorem Meets.of_step {program' : EStateM ε σ α} (hstep : program s = program' s')
    (h : Meets program' returns stops s') : Meets program returns stops s := by
  rw [Meets, hstep]
  exact h

/-- The rule of consequence. -/
theorem Meets.mono (h : Meets program returns stops s)
    (hreturns : ∀ value s', returns value s' → returns' value s')
    (hstops : ∀ stop s', stops stop s' → stops' stop s') : Meets program returns' stops' s := by
  cases hrun : program s with
  | ok value s' => exact .of_ok hrun (hreturns value s' (h.ok hrun))
  | error stop s' => exact .of_error hrun (hstops stop s' (h.error hrun))

theorem Meets.pure {value : α} (h : returns value s) :
    Meets (pure value : EStateM ε σ α) returns stops s :=
  .of_ok rfl h

theorem Meets.throw {stop : ε} (h : stops stop s) :
    Meets (throw stop : EStateM ε σ α) returns stops s :=
  .of_error rfl h

/-- The rule of sequence: the second program starts where the first one returned. -/
theorem Meets.bind {next : α → EStateM ε σ β} {middle : α → σ → Prop} {returns : β → σ → Prop}
    (h : Meets program middle stops s)
    (hnext : ∀ value s', middle value s' → Meets (next value) returns stops s') :
    Meets (program >>= next) returns stops s := by
  cases hrun : program s with
  | ok value s' =>
    rw [Meets, bind_ok hrun]
    exact hnext value s' (h.ok hrun)
  | error stop s' => exact .of_error (bind_error hrun) (h.error hrun)

theorem Meets.modify_bind {change : σ → σ} {next : Unit → EStateM ε σ β} {returns : β → σ → Prop}
    (h : Meets (next ()) returns stops (change s)) :
    Meets ((modify change : EStateM ε σ Unit) >>= next) returns stops s :=
  h

/-- The rule of the handler: it starts where the program stopped. -/
theorem Meets.catching {handler : ε → EStateM ε σ α} (h : Meets program returns stops s)
    (hhandler : ∀ stop s', stops stop s' → Meets (handler stop) returns stops' s') :
    Meets (catching program handler) returns stops' s := by
  cases hrun : program s with
  | ok value s' => exact .of_ok (catching_ok hrun handler) (h.ok hrun)
  | error stop s' =>
    rw [Meets, catching_error hrun handler]
    exact hhandler stop s' (h.error hrun)

end Postconditions

/-! ### Total correctness -/

section Convergence

variable {ε σ α β : Type} {property property' : α → Prop} {s s' : σ}

/-- A program with a bound on its steps returns if the bound is large enough, and then what it
returns does not depend on the bound and has a property. -/
def Converges (program : ℕ → EStateM ε σ α) (property : α → Prop) (s : σ) : Prop :=
  ∃ bound value s', (∀ fuel, bound ≤ fuel → program fuel s = .ok value s') ∧ property value

variable {program program' : ℕ → EStateM ε σ α}

theorem Converges.of_ok {value : α} (hrun : ∀ fuel, program fuel s = .ok value s')
    (h : property value) : Converges program property s :=
  ⟨0, value, s', fun fuel _ ↦ hrun fuel, h⟩

theorem Converges.pure {value : α} (h : property value) :
    Converges (fun _ ↦ (pure value : EStateM ε σ α)) property s :=
  .of_ok (fun _ ↦ rfl) h

/-- A run that goes on as another program in another state. -/
theorem Converges.of_step (hstep : ∀ fuel, program fuel s = program' fuel s')
    (h : Converges program' property s') : Converges program property s := by
  obtain ⟨bound, value, s₁, hrun, hvalue⟩ := h
  exact ⟨bound, value, s₁, fun fuel hfuel ↦ (hstep fuel).trans (hrun fuel hfuel), hvalue⟩

/-- A step of a loop. -/
theorem Converges.of_succ (h : Converges (fun fuel ↦ program (fuel + 1)) property s) :
    Converges program property s := by
  obtain ⟨bound, value, s', hrun, hvalue⟩ := h
  refine ⟨bound + 1, value, s', fun fuel hfuel ↦ ?_, hvalue⟩
  obtain ⟨fuel, rfl⟩ := Nat.exists_eq_add_of_le' (Nat.le_of_add_left_le hfuel)
  exact hrun fuel (Nat.le_of_add_le_add_right hfuel)

/-- The rule of consequence. -/
theorem Converges.mono (h : Converges program property s)
    (himp : ∀ value, property value → property' value) : Converges program property' s := by
  obtain ⟨bound, value, s', hrun, hvalue⟩ := h
  exact ⟨bound, value, s', hrun, himp value hvalue⟩

/-- The rule of sequence. -/
theorem Converges.bind {property : β → Prop} {middle : α → Prop} {next : ℕ → α → EStateM ε σ β}
    (h : Converges program middle s)
    (hnext : ∀ value s', middle value → Converges (fun fuel ↦ next fuel value) property s') :
    Converges (fun fuel ↦ program fuel >>= next fuel) property s := by
  obtain ⟨bound, value, s₁, hrun, hvalue⟩ := h
  obtain ⟨bound', value', s', hrun', hvalue'⟩ := hnext value s₁ hvalue
  refine ⟨max bound bound', value', s', fun fuel hfuel ↦ ?_, hvalue'⟩
  obtain ⟨hfirst, hsecond⟩ := Nat.max_le.mp hfuel
  exact (bind_ok (hrun fuel hfirst)).trans (hrun' fuel hsecond)

/-- The rule of a loop over a list. The key of a value tells for what it was made. -/
theorem Converges.mapM {property : β → Prop} {body : α → EStateM ε σ β} {key : β → α} {xs : List α}
    (h : ∀ x ∈ xs, ∀ s, Converges (fun _ ↦ body x) (fun y ↦ key y = x ∧ property y) s) (s : σ) :
    Converges (fun _ ↦ xs.mapM body) (fun ys ↦ ys.map key = xs ∧ ∀ y ∈ ys, property y) s := by
  induction xs generalizing s with
  | nil => exact .pure ⟨rfl, nofun⟩
  | cons x xs ih =>
    obtain ⟨hx, hxs⟩ := List.forall_mem_cons.mp h
    simp only [List.mapM_cons]
    refine (hx s).bind fun y s₁ hy ↦ (ih hxs s₁).bind fun ys _ hys ↦ .pure ?_
    rw [List.map_cons, hy.1, hys.1]
    exact ⟨rfl, List.forall_mem_cons.mpr ⟨hy.2, hys.2⟩⟩

end Convergence

/-! ### Invariants -/

section Invariants

variable {ε σ α β : Type} {invariant : σ → Prop}

/-- A program keeps an invariant, whether it returns or stops. -/
def Maintains (invariant : σ → Prop) (program : EStateM ε σ α) : Prop :=
  ∀ s, invariant s → Meets program (fun _ ↦ invariant) (fun _ ↦ invariant) s

theorem Maintains.pure {value : α} : Maintains invariant (pure value : EStateM ε σ α) :=
  fun _ h ↦ .pure h

theorem Maintains.throw {stop : ε} : Maintains invariant (throw stop : EStateM ε σ α) :=
  fun _ h ↦ .throw h

theorem Maintains.get : Maintains invariant (get : EStateM ε σ σ) :=
  fun _ h ↦ .of_ok rfl h

theorem Maintains.modify {change : σ → σ} (hchange : ∀ s, invariant s → invariant (change s)) :
    Maintains invariant (modify change : EStateM ε σ Unit) :=
  fun s h ↦ .of_ok rfl (hchange s h)

theorem Maintains.bind {program : EStateM ε σ α} {next : α → EStateM ε σ β}
    (h : Maintains invariant program) (hnext : ∀ value, Maintains invariant (next value)) :
    Maintains invariant (program >>= next) :=
  fun s hs ↦ (h s hs).bind fun value s' hs' ↦ hnext value s' hs'

theorem Maintains.catching {program : EStateM ε σ α} {handler : ε → EStateM ε σ α}
    (h : Maintains invariant program) (hhandler : ∀ stop, Maintains invariant (handler stop)) :
    Maintains invariant (catching program handler) :=
  fun s hs ↦ (h s hs).catching fun stop s' hs' ↦ hhandler stop s' hs'

end Invariants

end StudStuff.Lib
