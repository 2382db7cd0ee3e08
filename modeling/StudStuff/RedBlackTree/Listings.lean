import StudStuff.Lib.Listing
import StudStuff.RedBlackTree.Sharing

/-!
# Many trees refine listings with positions

What a client sees of the tree objects of a program is a `Store`: under the name of each object the
listing of its keys, with the addresses of the nodes for positions. `Op.Means` says what each
operation of the interface does to the listings and what it returns, without heap, colours or
sentinel. Construction, assignment and destruction move whole listings, an insertion and a copy
get new positions, and nothing else changes the position of a key.

`run_refines` proves that every run of the source is a run on listings, with the same results. Its
step is `exec_refines`, with one case for each operation.
-/

set_option autoImplicit false
set_option relaxedAutoImplicit false

namespace StudStuff.RedBlackTree

open Lib

variable {Key : Type} {params : Params Key}

/-! ### The operations on listings -/

/-- The listings of all objects of a program. -/
abbrev Listings (params : Params Key) := Store ℕ ℕ params.comp

/-- An iterator is at an entry, or at the end when there is none. -/
def Output.IsAt (output : Output Key) (entry : Option (ℕ × Key)) : Prop :=
  ∃ sentinel, output = .position ⟨landing .nil entry, sentinel⟩

section Means

variable [IsStrictWeakOrder Key fun first second ↦ params.comp first second = true]

/-- What an operation does to the listings, and what it returns. -/
def Op.Means (before : Listings params) (output : Output Key) (after : Listings params) :
    Op Key → Prop
  | .construct name => output = .unit ∧ before.listing name = none ∧
    after.listing = Function.update before.listing name (some .empty)
  | .copyConstruct name source => output = .unit ∧ before.listing name = none ∧
    ∃ original ∈ before.listing source, ∃ copy, before.IsCopy original copy ∧
      after.listing = Function.update before.listing name (some copy)
  | .moveConstruct name source => output = .unit ∧ before.listing name = none ∧
    ∃ original ∈ before.listing source, after.listing =
      Function.update (Function.update before.listing source (some .empty)) name (some original)
  | .destroy name => output = .unit ∧ before.listing name ≠ none ∧
    after.listing = Function.update before.listing name none
  | .copyAssign name source => output = .unit ∧ before.listing name ≠ none ∧
    ∃ original ∈ before.listing source, ∃ copy, before.IsCopy original copy ∧
      after.listing = Function.update before.listing name (some copy)
  | .moveAssign name source => output = .unit ∧ before.listing name ≠ none ∧
    ∃ original ∈ before.listing source, after.listing =
      Function.update (Function.update before.listing source (some .empty)) name (some original)
  | .swap first second => output = .unit ∧ ∃ listing ∈ before.listing first,
    ∃ listing' ∈ before.listing second, after.listing =
      Function.update (Function.update before.listing first (some listing')) second (some listing)
  | .insert name key => ∃ listing ∈ before.listing name,
    (listing.find? key ≠ none ∧ output.IsAt none ∧ after = before) ∨
    (listing.find? key = none ∧ ∃ address, ∃ hfresh : address ∉ listing.entries.map Prod.fst,
      before.Fresh address ∧ output.IsAt (some (address, key)) ∧ after.listing =
        Function.update before.listing name (some (listing.insert address key hfresh)))
  | .remove name key => ∃ listing ∈ before.listing name,
    output = .count (if (listing.find? key).isSome then 1 else 0) ∧
      after.listing = Function.update before.listing name (some (listing.remove key))
  | .erase name pos => ∃ listing ∈ before.listing name,
    (pos = endIterator ∧ output.IsAt none ∧ after = before) ∨
    ∃ address key, pos.node = .node address ∧ (address, key) ∈ listing.entries ∧
      output.IsAt (listing.next? address) ∧
        after.listing = Function.update before.listing name (some (listing.erase address))
  | .clear name => output = .unit ∧ before.listing name ≠ none ∧
    after.listing = Function.update before.listing name (some .empty)
  | .find name key => after = before ∧
    ∃ listing ∈ before.listing name, output.IsAt (listing.find? key)
  | .lowerBound name key => after = before ∧
    ∃ listing ∈ before.listing name, output.IsAt (listing.lowerBound? key)
  | .upperBound name key => after = before ∧
    ∃ listing ∈ before.listing name, output.IsAt (listing.upperBound? key)
  | .begin name => after = before ∧
    ∃ listing ∈ before.listing name, output.IsAt listing.entries.head?
  | .next name pos => after = before ∧ ∃ listing ∈ before.listing name,
    (pos = endIterator ∧ output.IsAt none) ∨
    ∃ address key, pos.node = .node address ∧ (address, key) ∈ listing.entries ∧
      output.IsAt (listing.next? address)
  | .deref name pos => after = before ∧ ∃ listing ∈ before.listing name,
    ∃ address key, pos.node = .node address ∧ (address, key) ∈ listing.entries ∧ output = .key key
  | .empty name => after = before ∧
    ∃ listing ∈ before.listing name, output = .flag listing.entries.isEmpty
  | .size name => after = before ∧
    ∃ listing ∈ before.listing name, output = .count listing.entries.length

/-- A run of operations on listings, with what each of them returned. -/
inductive ListingRun (params : Params Key)
    [IsStrictWeakOrder Key fun first second ↦ params.comp first second = true] :
    List (Op Key × Output Key) → Listings params → Prop
  | start : ListingRun params [] .empty
  | step {trace : List (Op Key × Output Key)} {before after : Listings params} {op : Op Key}
      {output : Output Key} (hrun : ListingRun params trace before)
      (hmeans : op.Means before output after) : ListingRun params (trace ++ [(op, output)]) after

end Means

/-! ### The listings of a heap -/

section Contents

variable {core core' : Core Key} {shapes shapes' : ObjectName → Tree Key}

/-- The listing of the tree of an object. -/
def Core.Invariant.listing (h : core.Invariant params shapes) (name : ObjectName) :
    Listing ℕ params.comp where
  entries := (shapes name).inorder
  sorted := (h.good name).sorted
  nodup := h.nodup name

@[simp] theorem Core.Invariant.entries_listing (h : core.Invariant params shapes)
    (name : ObjectName) : (h.listing name).entries = (shapes name).inorder :=
  rfl

/-- The listings of the objects that exist. -/
def Core.Invariant.listings (h : core.Invariant params shapes) (name : ℕ) :
    Option (Listing ℕ params.comp) :=
  (core.objects (.named name)).map fun _ ↦ h.listing (.named name)

theorem Core.Invariant.listings_some (h : core.Invariant params shapes) {name : ℕ}
    {object : TreeObject} (hobject : core.objects (.named name) = some object) :
    h.listings name = some (h.listing (.named name)) := by
  rw [listings, hobject, Option.map_some]

/-- An entry that lies in the listing of an object is an entry of its tree. -/
theorem Core.Invariant.lies_iff (h : core.Invariant params shapes) {name : ℕ} {entry : ℕ × Key} :
    Lies h.listings name entry ↔ entry ∈ (shapes (.named name)).inorder := by
  constructor
  · rintro ⟨listing, hlisting, hmem⟩
    obtain ⟨object, -, rfl⟩ := Option.map_eq_some_iff.mp hlisting
    exact hmem
  · intro hmem
    obtain ⟨object, hobject⟩ := h.exists_object (List.mem_map_of_mem hmem)
    exact ⟨_, h.listings_some hobject, hmem⟩

/-- The listings as a store. -/
def Core.Invariant.contents (h : core.Invariant params shapes) : Listings params where
  listing := h.listings
  apart name name' pos key key' hlies hlies' := by
    rw [h.lies_iff] at hlies hlies'
    by_contra hne
    exact h.disjoint (.named name) (.named name') (by simpa using hne) pos
      (List.mem_map_of_mem hlies) (List.mem_map_of_mem hlies')

theorem Core.Invariant.entries_contents (h : core.Invariant params shapes) (name : ℕ) :
    (h.contents.listing name).map Listing.entries =
      (core.objects (.named name)).map fun _ ↦ (shapes (.named name)).inorder :=
  Option.map_map ..

theorem Core.Invariant.contents_none (h : core.Invariant params shapes) {name : ℕ}
    (hobject : core.objects (.named name) = none) : h.contents.listing name = none := by
  show h.listings name = none
  rw [listings, hobject, Option.map_none]

theorem Core.Invariant.contents_ne_none (h : core.Invariant params shapes) {name : ℕ}
    {object : TreeObject} (hobject : core.objects (.named name) = some object) :
    h.contents.listing name ≠ none :=
  Option.ne_none_iff_exists'.mpr ⟨_, h.listings_some hobject⟩

/-- The listings are determined by their entries. -/
theorem Core.Invariant.contents_eq (h : core.Invariant params shapes)
    {listings : ℕ → Option (Listing ℕ params.comp)}
    (hlistings : ∀ name, (core.objects (.named name)).map (fun _ ↦ (shapes (.named name)).inorder) =
      (listings name).map Listing.entries) : h.contents.listing = listings := by
  funext name
  have hinjective : Function.Injective fun listing : Listing ℕ params.comp ↦ listing.entries :=
    fun _ _ ↦ Listing.ext
  exact Option.map_injective hinjective ((h.entries_contents name).trans (hlistings name))

/-- The listings after one object has changed. -/
theorem Core.Invariant.contents_update (h : core.Invariant params shapes)
    (h' : core'.Invariant params shapes') {name : ℕ} {object : Option TreeObject}
    (hobjects : core'.objects = Function.update core.objects (.named name) object)
    (hshapes : ∀ other, other ≠ name → shapes' (.named other) = shapes (.named other))
    {listing : Option (Listing ℕ params.comp)}
    (hlisting : listing.map Listing.entries =
      object.map fun _ ↦ (shapes' (.named name)).inorder) :
    h'.contents.listing = Function.update h.contents.listing name listing := by
  refine h'.contents_eq fun other ↦ ?_
  rw [hobjects]
  by_cases hother : other = name
  · rw [hother, Function.update_self, Function.update_self, hlisting]
  · have hne : ObjectName.named other ≠ .named name := by simpa using hother
    rw [Function.update_of_ne hother, Function.update_of_ne hne, hshapes other hother]
    exact (h.entries_contents other).symm

/-- The listings after two objects have changed. -/
theorem Core.Invariant.contents_update_update (h : core.Invariant params shapes)
    (h' : core'.Invariant params shapes') {first second : ℕ} {object object' : TreeObject}
    (hobjects : core'.objects = Function.update (Function.update core.objects (.named first)
      (some object)) (.named second) (some object'))
    (hshapes : ∀ other, other ≠ first → other ≠ second →
      shapes' (.named other) = shapes (.named other))
    {listing listing' : Listing ℕ params.comp}
    (hlisting : first ≠ second → listing.entries = (shapes' (.named first)).inorder)
    (hlisting' : listing'.entries = (shapes' (.named second)).inorder) :
    h'.contents.listing = Function.update (Function.update h.contents.listing first
      (some listing)) second (some listing') := by
  refine h'.contents_eq fun other ↦ ?_
  rw [hobjects]
  by_cases hsecond : other = second
  · rw [hsecond, Function.update_self, Function.update_self, Option.map_some, Option.map_some,
      hlisting']
  have hne : ObjectName.named other ≠ .named second := by simpa using hsecond
  rw [Function.update_of_ne hsecond, Function.update_of_ne hne]
  by_cases hfirst : other = first
  · subst hfirst
    rw [Function.update_self, Function.update_self, Option.map_some, Option.map_some,
      hlisting hsecond]
  · have hne' : ObjectName.named other ≠ .named first := by simpa using hfirst
    rw [Function.update_of_ne hfirst, Function.update_of_ne hne', hshapes other hfirst hsecond]
    exact (h.entries_contents other).symm

end Contents

/-! ### One operation -/

section Operations

variable [params.Lawful] {core : Core Key} {shapes : ObjectName → Tree Key}

/-- An operation does to the heap what it means for the listings, with the same result under every
policy of keeping sentinels. -/
def Core.Invariant.Refines (h : core.Invariant params shapes) (op : Op Key) : Prop :=
  ∃ output core' shapes', ∃ h' : core'.Invariant params shapes',
    core'.objects .temporary = none ∧
      Computes params (fun policy ↦ exec policy op) core output core' ∧
        op.Means h.contents output h'.contents

namespace Core.Invariant

variable (h : core.Invariant params shapes) (htemporary : core.objects .temporary = none)
include h htemporary

/-- A member function call that changes the tree of its object. -/
theorem refines_call {α : Type} {op : Op Key} {name : ℕ} {object : TreeObject}
    {program : TreeM Key α} {value : α} {made freed : ℕ} {tree' : Tree Key}
    (wrap : α → Output Key) (hobject : core.objects (.named name) = some object)
    (hexec : ∀ policy : SentinelPolicy params, exec policy op =
      member policy (.named name) program >>= fun value ↦ pure (wrap value))
    (hgood : tree'.Good params.comp)
    (hfits : Fits (core.background (.sentinel params) (shapes (.named name))) tree')
    (hcount : (shapes (.named name)).size + made = tree'.size + freed)
    (hrun : Transforms program (core.background (.sentinel params) (shapes (.named name)))
      (shapes (.named name)) value made freed tree')
    (hmeans : ∀ after : Listings params, (∀ listing : Listing ℕ params.comp,
      listing.entries = tree'.inorder →
        after.listing = Function.update h.contents.listing name (some listing)) →
          op.Means h.contents (wrap value) after) : h.Refines op := by
  obtain ⟨core', h', hobjects, hcomputes⟩ := h.call hobject hgood hfits hcount hrun
  have hafter {listing : Listing ℕ params.comp} (hlisting : listing.entries = tree'.inorder) :
      h'.contents.listing = Function.update h.contents.listing name (some listing) := by
    refine h.contents_update h' hobjects (fun other hother ↦ ?_) ?_
    · rw [Function.update_of_ne (by simpa using hother)]
    · rw [Function.update_self, Option.map_some, hlisting, Option.map_some]
  refine ⟨wrap value, core', _, h', (core.objects_temporary hobjects).trans htemporary, ?_,
    hmeans _ fun listing ↦ hafter⟩
  simp only [hexec]
  exact hcomputes.bind (Computes.pure core' (wrap value))

/-- A member function call that only reads. -/
theorem refines_query {α : Type} {op : Op Key} {name : ℕ} {object : TreeObject}
    {program : TreeM Key α} (value : α) (wrap : α → Output Key)
    (hobject : core.objects (.named name) = some object)
    (hexec : ∀ policy : SentinelPolicy params, exec policy op =
      member policy (.named name) program >>= fun value ↦ pure (wrap value))
    (hrun : ∀ background : State Key, Fits background (shapes (.named name)) →
      background.size = (shapes (.named name)).size →
        program (lay background (shapes (.named name))) =
          .ok value (lay background (shapes (.named name))))
    (hmeans : op.Means h.contents (wrap value) h.contents) : h.Refines op := by
  obtain ⟨core', h', hobjects, hcomputes⟩ := h.query hobject value
    fun nilNode _ ↦ hrun _ (h.fits nilNode _) rfl
  have hsame : h'.contents = h.contents := Store.ext <| h'.contents_eq fun other ↦ by
    rw [hobjects]
    exact (h.entries_contents other).symm
  refine ⟨wrap value, core', shapes, h', (congrFun hobjects _).trans htemporary, ?_, ?_⟩
  · simp only [hexec]
    exact hcomputes.bind (Computes.pure core' (wrap value))
  · rwa [hsame]

omit htemporary in
/-- A special member, which returns nothing. -/
theorem refines_special {op : Op Key} {core' : Core Key} {shapes' : ObjectName → Tree Key}
    {program : ∀ policy : SentinelPolicy params, WorldM Key policy.Store Unit}
    (h' : core'.Invariant params shapes')
    (hexec : ∀ policy : SentinelPolicy params, exec policy op =
      program policy >>= fun _ ↦ pure Output.unit)
    (htemporary' : core'.objects .temporary = none)
    (hcomputes : Computes params program core () core')
    (hmeans : op.Means h.contents .unit h'.contents) : h.Refines op := by
  refine ⟨.unit, core', shapes', h', htemporary', ?_, hmeans⟩
  simp only [hexec]
  exact hcomputes.bind (Computes.pure core' Output.unit)

theorem refines_construct {name : ℕ} (hname : ¬core.Exists name) :
    h.Refines (.construct name) := by
  have habsent := core.objects_of_not_exists hname
  obtain ⟨core', h', -, hobjects, hcomputes⟩ := h.construct habsent
  refine h.refines_special h' (fun _ ↦ rfl) ((core.objects_temporary hobjects).trans htemporary)
    hcomputes ⟨rfl, h.contents_none habsent, h.contents_update h' hobjects (fun _ _ ↦ rfl) ?_⟩
  rw [h.absent _ habsent]
  rfl

omit [params.Lawful] htemporary in
/-- A copy has the same keys at the addresses of new nodes. -/
theorem isCopy {source : ObjectName} {copy : Tree Key} (hsame : (shapes source).SameShape copy)
    (hnew : ∀ address ∈ copy.addresses, address ∉ core.heap.live)
    {listing : Listing ℕ params.comp} (hlisting : listing.entries = copy.inorder) :
    h.contents.IsCopy (h.listing source) listing := by
  rw [Store.IsCopy, hlisting]
  refine ⟨hsame.keys_eq.symm, fun entry hmem name key hlies ↦ ?_⟩
  have hentry : (entry.1, key) ∈ (shapes (.named name)).inorder := h.lies_iff.mp hlies
  have hmem' : entry.1 ∈ (shapes (.named name)).addresses := List.mem_map.mpr ⟨_, hentry, rfl⟩
  exact hnew _ (List.mem_map_of_mem hmem) ((h.present _).live hmem')

theorem refines_copyConstruct {name source : ℕ} (hname : ¬core.Exists name)
    (hsource : core.Exists source) : h.Refines (.copyConstruct name source) := by
  have habsent := core.objects_of_not_exists hname
  obtain ⟨object, hobject⟩ := hsource
  obtain ⟨core', copy, hsame, hnew, h', hobjects, hcomputes⟩ := h.copyConstruct habsent hobject
  have hcopy : (h'.listing (.named name)).entries = copy.inorder := by
    rw [entries_listing, Function.update_self]
  refine h.refines_special h' (fun _ ↦ rfl) ((core.objects_temporary hobjects).trans htemporary)
    hcomputes ⟨rfl, h.contents_none habsent, _, h.listings_some hobject,
      h'.listing (.named name), h.isCopy hsame hnew hcopy,
        h.contents_update h' hobjects (fun other hother ↦ ?_) rfl⟩
  rw [Function.update_of_ne (by simpa using hother)]

theorem refines_copyAssign {name source : ℕ} (hname : core.Exists name)
    (hsource : core.Exists source) : h.Refines (.copyAssign name source) := by
  obtain ⟨object, hobject⟩ := hname
  obtain ⟨object', hobject'⟩ := hsource
  obtain ⟨core', copy, hsame, hnew, h', hobjects, hcomputes⟩ :=
    h.copyAssign htemporary hobject hobject'
  have hcopy : (h'.listing (.named name)).entries = copy.inorder := by
    rw [entries_listing, Function.update_self]
  refine h.refines_special h' (fun _ ↦ rfl) ((core.objects_temporary hobjects).trans htemporary)
    hcomputes ⟨rfl, h.contents_ne_none hobject, _, h.listings_some hobject',
      h'.listing (.named name), h.isCopy hsame hnew hcopy,
        h.contents_update h' hobjects (fun other hother ↦ ?_) rfl⟩
  rw [Function.update_of_ne (by simpa using hother)]

theorem refines_moveConstruct {name source : ℕ} (hname : ¬core.Exists name)
    (hsource : core.Exists source) : h.Refines (.moveConstruct name source) := by
  have habsent := core.objects_of_not_exists hname
  obtain ⟨object, hobject⟩ := hsource
  obtain ⟨core', h', hobjects, hcomputes⟩ := h.moveConstruct habsent hobject
  have htemporary' : core'.objects .temporary = none := by
    rw [hobjects, Function.update_of_ne (by simp), Function.update_of_ne (by simp), htemporary]
  refine h.refines_special h' (fun _ ↦ rfl) htemporary' hcomputes
    ⟨rfl, h.contents_none habsent, _, h.listings_some hobject,
      h.contents_update_update h' hobjects (fun other hother hother' ↦ ?_) (fun _ ↦ ?_) ?_⟩
  · rw [Equiv.swap_apply_of_ne_of_ne (by simpa using hother') (by simpa using hother)]
  · rw [Equiv.swap_apply_right, h.absent _ habsent]
    rfl
  · rw [Equiv.swap_apply_left]
    rfl

theorem refines_moveAssign {name source : ℕ} (hname : core.Exists name)
    (hsource : core.Exists source) : h.Refines (.moveAssign name source) := by
  obtain ⟨object, hobject⟩ := hname
  obtain ⟨object', hobject'⟩ := hsource
  obtain ⟨core', h', hobjects, hcomputes⟩ := h.moveAssign htemporary hobject hobject'
  have htemporary' : core'.objects .temporary = none := by
    rw [hobjects, Function.update_of_ne (by simp), Function.update_of_ne (by simp), htemporary]
  refine h.refines_special h' (fun _ ↦ rfl) htemporary' hcomputes
    ⟨rfl, h.contents_ne_none hobject, _, h.listings_some hobject',
      h.contents_update_update h' hobjects (fun other hother hother' ↦ ?_) (fun hne ↦ ?_) ?_⟩
  · rw [Function.update_of_ne (by simpa using hother'),
      Function.update_of_ne (by simpa using hother)]
  · rw [Function.update_of_ne (by simpa using hne), Function.update_self]
    rfl
  · rw [Function.update_self]
    rfl

theorem refines_swap {first second : ℕ} (hfirst : core.Exists first)
    (hsecond : core.Exists second) : h.Refines (.swap first second) := by
  obtain ⟨object, hobject⟩ := hfirst
  obtain ⟨object', hobject'⟩ := hsecond
  obtain ⟨core', h', hobjects, hcomputes⟩ := h.swap hobject hobject'
  have htemporary' : core'.objects .temporary = none := by
    rw [hobjects, Function.update_of_ne (by simp), Function.update_of_ne (by simp), htemporary]
  refine h.refines_special h' (fun _ ↦ rfl) htemporary' hcomputes
    ⟨rfl, _, h.listings_some hobject, _, h.listings_some hobject',
      h.contents_update_update h' hobjects (fun other hother hother' ↦ ?_) (fun _ ↦ ?_) ?_⟩
  · rw [Equiv.swap_apply_of_ne_of_ne (by simpa using hother) (by simpa using hother')]
  · rw [Equiv.swap_apply_left]
    rfl
  · rw [Equiv.swap_apply_right]
    rfl

theorem refines_destroy {name : ℕ} (hname : core.Exists name) : h.Refines (.destroy name) := by
  obtain ⟨object, hobject⟩ := hname
  obtain ⟨core', h', hobjects, hcomputes⟩ := h.destroy hobject
  refine h.refines_special h' (fun _ ↦ rfl) ((core.objects_temporary hobjects).trans htemporary)
    hcomputes ⟨rfl, h.contents_ne_none hobject,
      h.contents_update h' hobjects (fun other hother ↦ ?_) rfl⟩
  rw [Function.update_of_ne (by simpa using hother)]

theorem refines_insert {name : ℕ} (hname : core.Exists name) (key : Key) :
    h.Refines (.insert name key) := by
  obtain ⟨object, hobject⟩ := hname
  have hfits := h.fits (.sentinel params) (.named name)
  have hlisting := h.listings_some hobject
  cases hfind : (h.listing (.named name)).find? key with
  | some entry =>
    have hequivalent : equivalent params.comp key entry.2 = true :=
      List.find?_some (p := fun entry : ℕ × Key ↦ equivalent params.comp key entry.2) hfind
    have hcontains := ((h.good (.named name)).contains_iff key).mpr
      ⟨entry, List.mem_of_find?_eq_some hfind, hequivalent⟩
    obtain ⟨-, hrun⟩ := insert_spec_present (h.good _) hfits h.fuse rfl hcontains
    refine h.refines_call htemporary .position hobject (fun _ ↦ rfl) (h.good _) hfits rfl hrun
      fun after hafter ↦ ⟨_, hlisting, Or.inl ⟨?_, ⟨.nil, rfl⟩, Store.ext ?_⟩⟩
    · rw [hfind]
      exact Option.some_ne_none entry
    · rw [hafter (h.listing (.named name)) rfl]
      exact (congrArg (Function.update _ name) hlisting.symm).trans (Function.update_eq_self ..)
  | none =>
    obtain ⟨address, tree', smaller, greater, hgood', hfits', hcut, hlist, hsmaller, hgreater,
      hsize, hrun⟩ :=
      insert_listing (h.good _) hfits h.fuse rfl (Listing.find?_eq_none_iff.mp hfind)
    have hnew : address ∉ (h.listing (.named name)).entries.map Prod.fst := by
      have hnodup := hfits'.nodup
      rw [Tree.addresses, hlist, List.map_append, List.map_cons, List.nodup_middle,
        List.nodup_cons, ← List.map_append] at hnodup
      rw [entries_listing, hcut]
      exact hnodup.1
    have hfresh : h.contents.Fresh address := fun other key' hlies ↦ by
      have hentry : (address, key') ∈ (shapes (.named other)).inorder := h.lies_iff.mp hlies
      have hlive := (h.present _).live (List.mem_map.mpr ⟨_, hentry, rfl⟩)
      have hmem : address ∈ tree'.addresses := by simp [Tree.addresses, hlist]
      exact (Core.old_or_free hfits' hmem).elim hnew fun hfree ↦ hfree hlive
    refine h.refines_call htemporary .position hobject (fun _ ↦ rfl) hgood' hfits' (by omega) hrun
      fun after hafter ↦ ⟨_, hlisting, Or.inr ⟨hfind, address, hnew, hfresh, ⟨.nil, rfl⟩,
        hafter _ ?_⟩⟩
    rw [Listing.entries_insert_of_cut hcut hsmaller hgreater, hlist]

theorem refines_remove {name : ℕ} (hname : core.Exists name) (key : Key) :
    h.Refines (.remove name key) := by
  obtain ⟨object, hobject⟩ := hname
  obtain ⟨count, tree', hgood', hfits', hlist, hsize, hcount, hrun⟩ :=
    remove_listing (h.good _) (h.good _).sorted.noShortcut
      (h.fits (.sentinel params) (.named name)) rfl key
  refine h.refines_call htemporary .count hobject (fun _ ↦ rfl) hgood' hfits' (by omega) hrun
    fun after hafter ↦ ⟨_, h.listings_some hobject, ?_, hafter _ hlist.symm⟩
  have hfound : (h.good (.named name)).set.contains key = true ↔
      ((h.listing (.named name)).find? key).isSome := by
    rw [(h.good _).contains_iff, Listing.find?, List.find?_isSome]
    rfl
  simp only [hcount, hfound]

theorem refines_erase {name : ℕ} {pos : Iterator} (hname : core.Exists name)
    (hpos : pos = endIterator ∨ core.Holds name pos.node) : h.Refines (.erase name pos) := by
  obtain ⟨object, hobject⟩ := hname
  have hlisting := h.listings_some hobject
  rcases hpos with rfl | hholds
  · exact h.refines_query htemporary _ .position hobject (fun _ ↦ rfl)
      (fun background _ _ ↦ erase_end (lay background _))
      ⟨_, hlisting, Or.inl ⟨rfl, ⟨.nil, rfl⟩, rfl⟩⟩
  · obtain ⟨ptr, sentinel⟩ := pos
    obtain ⟨object', address, -, rfl, hmem⟩ := h.mem_of_holds hholds
    obtain ⟨entry, hentry, rfl⟩ := List.mem_map.mp hmem
    obtain ⟨smaller, greater, hcut⟩ := List.append_of_mem hentry
    obtain ⟨next, tree', hgood', hfits', hlist, hsize, -, hnext, hrun⟩ :=
      erase_spec_any (h.good _) (h.fits (.sentinel params) (.named name)) rfl hcut sentinel
    have hcut' : (h.listing (.named name)).entries = smaller ++ entry :: greater := hcut
    refine h.refines_call htemporary .position hobject (fun _ ↦ rfl) hgood' hfits' (by omega) hrun
      fun after hafter ↦ ⟨_, hlisting, Or.inr ⟨entry.1, entry.2, rfl, hentry, ⟨.nil, ?_⟩,
        hafter _ ?_⟩⟩
    · rw [Listing.next?_of_cut hcut', hnext (h.good _).sorted.noShortcut]
    · rw [Listing.entries_erase_of_cut hcut', hlist]

theorem refines_clear {name : ℕ} (hname : core.Exists name) : h.Refines (.clear name) := by
  obtain ⟨object, hobject⟩ := hname
  exact h.refines_call htemporary (fun _ ↦ .unit) hobject (fun _ ↦ rfl)
    (Tree.good_nil params.comp) ⟨by simp, by simp⟩ (by rw [Tree.size, Nat.zero_add, Nat.add_zero])
    (clear_spec (h.fits (.sentinel params) (.named name)))
    fun after hafter ↦ ⟨rfl, h.contents_ne_none hobject, hafter _ rfl⟩

theorem refines_next {name : ℕ} {pos : Iterator} (hname : core.Exists name)
    (hpos : pos = endIterator ∨ pos.nil = .nil ∧ core.Holds name pos.node) :
    h.Refines (.next name pos) := by
  obtain ⟨object, hobject⟩ := hname
  have hlisting := h.listings_some hobject
  rcases hpos with rfl | ⟨hsentinel, hholds⟩
  · exact h.refines_query htemporary endIterator .position hobject (fun _ ↦ rfl)
      (fun background _ _ ↦ rfl) ⟨rfl, _, hlisting, Or.inl ⟨rfl, ⟨.nil, rfl⟩⟩⟩
  · obtain ⟨ptr, sentinel⟩ := pos
    obtain rfl : sentinel = .nil := hsentinel
    obtain ⟨object', address, -, rfl, hmem⟩ := h.mem_of_holds hholds
    obtain ⟨entry, hentry, rfl⟩ := List.mem_map.mp hmem
    obtain ⟨smaller, greater, hcut⟩ := List.append_of_mem hentry
    have hcut' : (h.listing (.named name)).entries = smaller ++ entry :: greater := hcut
    refine h.refines_query htemporary ⟨landing .nil greater.head?, .nil⟩ .position hobject
      (fun _ ↦ rfl) (fun background hfits _ ↦ ?_)
      ⟨rfl, _, hlisting, Or.inr ⟨entry.1, entry.2, rfl, hentry, ⟨.nil, ?_⟩⟩⟩
    · obtain ⟨color, left, right, frames, hshape, -, rfl⟩ := exists_focus_of_cut hcut
      have hplain := (h.good (.named name)).sorted.noShortcut _ _ _ _ _ _ hshape
      rw [hshape] at hfits ⊢
      rw [increment_run hfits, hplain, Option.none_or]
    · rw [Listing.next?_of_cut hcut']

theorem refines_deref {name : ℕ} {pos : Iterator} (hholds : core.Holds name pos.node) :
    h.Refines (.deref name pos) := by
  obtain ⟨ptr, sentinel⟩ := pos
  obtain ⟨object, address, hobject, rfl, hmem⟩ := h.mem_of_holds hholds
  obtain ⟨entry, hentry, rfl⟩ := List.mem_map.mp hmem
  exact h.refines_query htemporary entry.2 .key hobject (fun _ ↦ rfl)
    (fun background hfits _ ↦ deref_lay hfits hentry sentinel)
    ⟨rfl, _, h.listings_some hobject, entry.1, entry.2, rfl, hentry, rfl⟩

/-- Every operation whose precondition holds does what it means for the listings. -/
theorem exec_refines {op : Op Key} (hvalid : op.Valid core) : h.Refines op := by
  cases op with
  | construct name => exact h.refines_construct htemporary hvalid
  | copyConstruct name source => exact h.refines_copyConstruct htemporary hvalid.1 hvalid.2
  | moveConstruct name source => exact h.refines_moveConstruct htemporary hvalid.1 hvalid.2
  | destroy name => exact h.refines_destroy htemporary hvalid
  | copyAssign name source => exact h.refines_copyAssign htemporary hvalid.1 hvalid.2
  | moveAssign name source => exact h.refines_moveAssign htemporary hvalid.1 hvalid.2
  | swap first second => exact h.refines_swap htemporary hvalid.1 hvalid.2
  | insert name key => exact h.refines_insert htemporary hvalid key
  | remove name key => exact h.refines_remove htemporary hvalid key
  | erase name pos => exact h.refines_erase htemporary hvalid.1 hvalid.2
  | clear name => exact h.refines_clear htemporary hvalid
  | find name key =>
    obtain ⟨object, hname⟩ := hvalid
    exact h.refines_query htemporary _ .position hname (fun _ ↦ rfl)
      (fun background hfits _ ↦ bind_ok (findNode_lay (h.good _).sorted hfits))
      ⟨rfl, _, h.listings_some hname, _, rfl⟩
  | lowerBound name key =>
    obtain ⟨object, hname⟩ := hvalid
    exact h.refines_query htemporary _ .position hname (fun _ ↦ rfl)
      (fun background hfits _ ↦ lowerBound_lay (h.good _).sorted hfits)
      ⟨rfl, _, h.listings_some hname, _, rfl⟩
  | upperBound name key =>
    obtain ⟨object, hname⟩ := hvalid
    exact h.refines_query htemporary _ .position hname (fun _ ↦ rfl)
      (fun background hfits _ ↦ upperBound_lay (h.good _).sorted hfits)
      ⟨rfl, _, h.listings_some hname, _, rfl⟩
  | begin name =>
    obtain ⟨object, hname⟩ := hvalid
    exact h.refines_query htemporary _ .position hname (fun _ ↦ rfl)
      (fun background hfits _ ↦ begin_lay hfits) ⟨rfl, _, h.listings_some hname, _, rfl⟩
  | next name pos => exact h.refines_next htemporary hvalid.1 hvalid.2
  | deref name pos => exact h.refines_deref htemporary hvalid
  | empty name =>
    obtain ⟨object, hname⟩ := hvalid
    refine h.refines_query htemporary (decide ((shapes (.named name)).ptr = .nil)) .flag hname
      (fun _ ↦ rfl) (fun background _ _ ↦ rfl) ⟨rfl, _, h.listings_some hname, ?_⟩
    rw [entries_listing]
    cases shapes (.named name) <;> simp
  | size name =>
    obtain ⟨object, hname⟩ := hvalid
    refine h.refines_query htemporary (shapes (.named name)).size .count hname (fun _ ↦ rfl)
      (fun background _ hsize ↦ congrArg (EStateM.Result.ok · (lay background _)) hsize)
      ⟨rfl, _, h.listings_some hname, ?_⟩
    rw [entries_listing, Tree.length_inorder]

end Core.Invariant

end Operations

/-! ### Runs -/

/-- The listings show the objects that exist, the keys of their trees in order with the addresses
of the nodes, and all live nodes. -/
structure Core.Shows (core : Core Key) (contents : Listings params) : Prop where
  absent : ∀ name, contents.listing name = none → core.objects (.named name) = none
  object : ∀ name, ∀ listing ∈ contents.listing name, ∃ object tree,
    core.objects (.named name) = some object ∧ Represents core.heap .nil object.root tree ∧
      tree.inorder = listing.entries ∧ object.size = listing.entries.length
  live : ∀ address ∈ core.heap.live, ∃ name key, Lies contents.listing name (address, key)

section Runs

variable {core : Core Key} {shapes : ObjectName → Tree Key}

theorem Core.Invariant.shows (h : core.Invariant params shapes)
    (htemporary : core.objects .temporary = none) : core.Shows h.contents where
  absent name hnone := Option.map_eq_none_iff.mp hnone
  object name listing hlisting := by
    obtain ⟨object, hobject, rfl⟩ := Option.map_eq_some_iff.mp hlisting
    refine ⟨object, shapes (.named name), hobject, h.represents hobject, rfl, ?_⟩
    rw [h.object _ _ hobject, entries_listing, Tree.length_inorder]
  live address hlive := by
    obtain ⟨name, hmem⟩ := h.covered address hlive
    cases name with
    | temporary =>
      obtain ⟨object, hobject⟩ := h.exists_object hmem
      cases htemporary.symm.trans hobject
    | named name =>
      obtain ⟨entry, hentry, rfl⟩ := List.mem_map.mp hmem
      exact ⟨name, entry.2, h.lies_iff.mpr hentry⟩

variable [params.Lawful]

/-- What an operation of a run does to the listings. -/
theorem Core.Invariant.means_of_exec {policy : SentinelPolicy params}
    {world world' : World Key policy.Store} (h : world.core.Invariant params shapes)
    (htemporary : world.core.objects .temporary = none)
    (hsentinels : ∀ name, (policy.load world.sentinels name).IsSentinel params) {op : Op Key}
    {output : Output Key} (hvalid : op.Valid world.core)
    (hexec : exec policy op world = .ok output world') :
    ∃ shapes', ∃ h' : world'.core.Invariant params shapes',
      world'.core.objects .temporary = none ∧
        (∀ name, (policy.load world'.sentinels name).IsSentinel params) ∧
          op.Means h.contents output h'.contents := by
  obtain ⟨output', core', shapes', h', htemporary', hcomputes, hmeans⟩ :=
    h.exec_refines htemporary hvalid
  obtain ⟨store', hstore', hexec'⟩ := hcomputes policy world.sentinels hsentinels
  cases hexec.symm.trans hexec'
  exact ⟨shapes', h', htemporary', hstore', hmeans⟩

/-- Every run of the source is a run on listings in which each operation returns the same. -/
theorem run_refines {trace : List (Op Key × Output Key)}
    {world : World Key (SentinelPolicy.shared params).Store}
    (hrun : Run (.shared params) (.sentinel params) trace world) :
    ∃ contents : Listings params, ListingRun params trace contents ∧
      world.core.Shows contents := by
  suffices hcontents : ∃ shapes, ∃ h : world.core.Invariant params shapes,
      world.core.objects .temporary = none ∧
        (∀ name, ((SentinelPolicy.shared params).load world.sentinels name).IsSentinel params) ∧
          ListingRun params trace h.contents by
    obtain ⟨shapes, h, htemporary, -, hlistings⟩ := hcontents
    exact ⟨h.contents, hlistings, h.shows htemporary⟩
  induction hrun with
  | start =>
    have hstart : Run (.shared params) (.sentinel params) []
      ⟨Core.start Key, .sentinel params⟩ := .start
    obtain ⟨⟨shapes, h⟩, htemporary, hsentinels⟩ :=
      hstart.invariant fun _ ↦ isSentinel_sentinel params
    refine ⟨shapes, h, htemporary, hsentinels, ?_⟩
    rw [show h.contents = .empty from Store.ext rfl]
    exact .start
  | @step trace world world' op output hrun hvalid hexec ih =>
    obtain ⟨shapes, h, htemporary, hsentinels, hlistings⟩ := ih
    obtain ⟨shapes', h', htemporary', hsentinels', hmeans⟩ :=
      h.means_of_exec htemporary hsentinels hvalid hexec
    exact ⟨shapes', h', htemporary', hsentinels', hlistings.step hmeans⟩

/-- Several trees that are copied, moved and swapped. -/
theorem run_refines_several :
    ∃ (trace : List (Op ℕ × Output ℕ))
      (world : World ℕ (SentinelPolicy.shared Params.naturals).Store)
      (contents : Listings Params.naturals), trace.map Prod.fst = severalOps ∧
        Represents world.core.heap .nil (.node 5) severalTree ∧
          world.core.heap.live.card = 19 ∧ ListingRun Params.naturals trace contents ∧
            world.core.Shows contents := by
  obtain ⟨trace, world, hrun, htrace, -, htree, -, hlive⟩ := exists_severalOps
  obtain ⟨contents, hlistings, hshows⟩ := run_refines hrun
  exact ⟨trace, world, contents, htrace, htree, hlive, hlistings, hshows⟩

end Runs

end StudStuff.RedBlackTree
