import Mathlib.Order.Defs.Unbundled
import Mathlib.Data.List.Basic

/-!
# Ordered sets over a strict weak order

A strict weak order given as a Boolean comparison identifies the keys it does not separate
(`equivalent`). An `OrderedSet` is a set of equivalence classes, each with the representative that
was inserted first, listed in increasing order. `insert` keeps a present class as it is, `remove`
drops the class of a key, and `find?` gives the representative.

The operations are stated by filters over the whole list. The lemmas of the last part say what
they are on a list that is cut at the place of the key, which is how a search tree meets it:
`elements_insert_of_cut`, `cut_of_equivalent`.
-/

set_option autoImplicit false
set_option relaxedAutoImplicit false

namespace StudStuff.Lib

variable {α : Type*}

/-- Neither key is below the other. -/
def equivalent (lt : α → α → Bool) (first second : α) : Bool := !lt first second && !lt second first

/-! ### Strict weak orders -/

section Order

variable {lt : α → α → Bool}

theorem equivalent_iff {first second : α} :
    equivalent lt first second = true ↔ lt first second = false ∧ lt second first = false := by
  simp [equivalent]

theorem equivalent_comm (lt : α → α → Bool) (first second : α) :
    equivalent lt first second = equivalent lt second first := by
  rw [equivalent, equivalent, Bool.and_comm]

variable [IsStrictWeakOrder α fun first second ↦ lt first second = true]

theorem weakOrder_irrefl (key : α) : lt key key = false := by
  have h := irrefl_of (fun first second ↦ lt first second = true) key
  simpa using h

theorem weakOrder_trans {first second third : α} (h : lt first second = true)
    (h' : lt second third = true) : lt first third = true :=
  trans_of (fun first second ↦ lt first second = true) h h'

theorem weakOrder_asymm {first second : α} (h : lt first second = true) :
    lt second first = false := by
  by_contra h'
  have hlt : lt first first = true := weakOrder_trans h (by simpa using h')
  have hirrefl : lt first first = false := weakOrder_irrefl first
  rw [hirrefl] at hlt
  cases hlt

theorem equivalent_trans {first second third : α} (h : equivalent lt first second = true)
    (h' : equivalent lt second third = true) : equivalent lt first third = true := by
  rw [equivalent_iff] at h h' ⊢
  have hincomp : ¬lt first third = true ∧ ¬lt third first = true :=
    @IsStrictWeakOrder.incomp_trans α (fun first second ↦ lt first second = true) _
      first second third (by simpa using h) (by simpa using h')
  simpa using hincomp

/-- A key below another is below everything equivalent to it. -/
theorem lt_of_lt_of_equivalent {first second third : α} (h : lt first second = true)
    (h' : equivalent lt second third = true) : lt first third = true := by
  by_contra hlt
  by_cases hgt : lt third first = true
  · have := weakOrder_trans hgt h
    rw [equivalent_iff] at h'
    rw [h'.2] at this
    cases this
  · have heq : equivalent lt first third = true := equivalent_iff.mpr
      ⟨by simpa using hlt, by simpa using hgt⟩
    have := equivalent_trans heq (equivalent_comm lt _ _ ▸ h')
    rw [equivalent_iff] at this
    rw [this.1] at h
    cases h

/-- A key above another is above everything equivalent to it. -/
theorem lt_of_equivalent_of_lt {first second third : α} (h : equivalent lt first second = true)
    (h' : lt second third = true) : lt first third = true := by
  by_contra hlt
  by_cases hgt : lt third first = true
  · have := weakOrder_trans h' hgt
    rw [equivalent_iff] at h
    rw [h.2] at this
    cases this
  · have heq : equivalent lt first third = true := equivalent_iff.mpr
      ⟨by simpa using hlt, by simpa using hgt⟩
    have := equivalent_trans (equivalent_comm lt _ _ ▸ h) heq
    rw [equivalent_iff] at this
    rw [this.1] at h'
    cases h'

end Order

/-! ### The sets -/

/-- Representatives of equivalence classes in increasing order. -/
structure OrderedSet (lt : α → α → Bool) where
  elements : List α
  sorted : elements.Pairwise fun first second ↦ lt first second = true

namespace OrderedSet

variable {lt : α → α → Bool}

/-- The elements determine the set. -/
@[ext]
theorem ext {first second : OrderedSet lt} (h : first.elements = second.elements) :
    first = second := by
  cases first
  cases second
  cases h
  rfl

/-- The empty set. -/
def empty : OrderedSet lt := ⟨[], .nil⟩

/-- The class of a key is in the set. -/
def contains (set : OrderedSet lt) (key : α) : Bool := set.elements.any (equivalent lt key)

/-- The representative of the class of a key. -/
def find? (set : OrderedSet lt) (key : α) : Option α := set.elements.find? (equivalent lt key)

/-- The set without the class of a key. -/
def remove (set : OrderedSet lt) (key : α) : OrderedSet lt where
  elements := set.elements.filter fun element ↦ !equivalent lt key element
  sorted := set.sorted.filter _

@[simp] theorem elements_remove (set : OrderedSet lt) (key : α) : (set.remove key).elements =
    set.elements.filter fun element ↦ !equivalent lt key element :=
  rfl

/-- The class of a key is absent from a list that is cut between smaller and greater keys. -/
theorem not_equivalent_of_cut {smaller greater : List α} {key element : α}
    (hsmaller : ∀ element ∈ smaller, lt element key = true)
    (hgreater : ∀ element ∈ greater, lt key element = true)
    (hmem : element ∈ smaller ++ greater) : equivalent lt key element = false := by
  rw [Bool.eq_false_iff, Ne, equivalent_iff]
  rintro ⟨hlt, hgt⟩
  rcases List.mem_append.mp hmem with hmem | hmem
  · rw [hsmaller element hmem] at hgt
    cases hgt
  · rw [hgreater element hmem] at hlt
    cases hlt

theorem contains_of_cut {set : OrderedSet lt} {smaller greater : List α} {key : α}
    (h : set.elements = smaller ++ greater)
    (hsmaller : ∀ element ∈ smaller, lt element key = true)
    (hgreater : ∀ element ∈ greater, lt key element = true) : set.contains key = false := by
  rw [contains, h, List.any_eq_false]
  intro element hmem
  rw [not_equivalent_of_cut hsmaller hgreater hmem]
  decide

variable [IsStrictWeakOrder α fun first second ↦ lt first second = true]

/-- The set with the class of a key. A class that is present keeps its representative. -/
def insert (set : OrderedSet lt) (key : α) : OrderedSet lt :=
  if set.contains key then set
  else
    { elements := set.elements.filter (lt · key) ++ key :: set.elements.filter (lt key ·)
      sorted := by
        rw [List.pairwise_append, List.pairwise_cons]
        refine ⟨set.sorted.filter _, ⟨?_, set.sorted.filter _⟩, ?_⟩
        · intro element hmem
          exact (List.mem_filter.mp hmem).2
        · intro first hfirst second hsecond
          have hlt := (List.mem_filter.mp hfirst).2
          rcases List.mem_cons.mp hsecond with rfl | hmem
          · exact hlt
          · exact weakOrder_trans hlt (List.mem_filter.mp hmem).2 }

/-- A new class is put between the smaller and the greater ones. -/
theorem elements_insert {set : OrderedSet lt} {key : α} (h : set.contains key = false) :
    (set.insert key).elements =
      set.elements.filter (lt · key) ++ key :: set.elements.filter (lt key ·) := by
  rw [insert, if_neg (by simp [h])]

variable {set : OrderedSet lt} {smaller greater : List α} {key element : α}

/-- A new key lands at the cut. -/
theorem elements_insert_of_cut (h : set.elements = smaller ++ greater)
    (hsmaller : ∀ element ∈ smaller, lt element key = true)
    (hgreater : ∀ element ∈ greater, lt key element = true) :
    (set.insert key).elements = smaller ++ key :: greater := by
  have hcontains := contains_of_cut h hsmaller hgreater
  have hbelow : (smaller ++ greater).filter (lt · key) = smaller := by
    rw [List.filter_append, List.filter_eq_self.mpr hsmaller, List.filter_eq_nil_iff.mpr,
      List.append_nil]
    intro element hmem
    rw [weakOrder_asymm (hgreater element hmem)]
    decide
  have habove : (smaller ++ greater).filter (lt key ·) = greater := by
    rw [List.filter_append, List.filter_eq_self.mpr hgreater, List.filter_eq_nil_iff.mpr,
      List.nil_append]
    intro element hmem
    rw [weakOrder_asymm (hsmaller element hmem)]
    decide
  rw [elements_insert hcontains, h, hbelow, habove]

/-- Around an element equivalent to a key, the others are below and above the key. -/
theorem cut_of_equivalent (h : set.elements = smaller ++ element :: greater)
    (helement : equivalent lt key element = true) :
    (∀ other ∈ smaller, lt other key = true) ∧ ∀ other ∈ greater, lt key other = true := by
  have hsorted := set.sorted
  rw [h, List.pairwise_append, List.pairwise_cons] at hsorted
  constructor
  · intro other hmem
    exact lt_of_lt_of_equivalent (hsorted.2.2 other hmem element (by simp))
      (equivalent_comm lt _ _ ▸ helement)
  · intro other hmem
    exact lt_of_equivalent_of_lt helement (hsorted.2.1.1 other hmem)

end OrderedSet

end StudStuff.Lib
