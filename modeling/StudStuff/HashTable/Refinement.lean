import StudStuff.HashTable.Rehash

/-!
# The hash table is a finite map

The reference is a finite map on the classes of equivalent keys (`Reference`). Every operation on a
table answers as the reference does, and leaves a table that stores what the reference holds
(`exec_run`). `runOps_refines` extends this to any sequence of operations on a table that starts
empty with at least one bucket.
-/

set_option autoImplicit false
set_option relaxedAutoImplicit false

namespace StudStuff.HashTable

open Lib

variable {K V : Type}

/-! ### The reference -/

section Reference

variable [BEq K] [EquivBEq K]

/-- A finite map on the classes of equivalent keys. -/
abbrev Reference (K V : Type) [BEq K] [EquivBEq K] := Finmap fun _ : KeyClass K ↦ V

/-- One operation on the reference. -/
def specStep : Op K V → Reference K V → Response V × Reference K V
  | .insert key value, map => (.done, map.insert (keyClass key) value)
  | .find key, map => (.found (map.lookup (keyClass key)), map)
  | .remove key, map => (.removed (decide (keyClass key ∈ map)), map.erase (keyClass key))
  | .rehash _, map => (.done, map)

/-- Operations on the reference, one after another. -/
def specRun : List (Op K V) → Reference K V → List (Response V) × Reference K V
  | [], map => ([], map)
  | op :: ops, map =>
    let (response, map') := specStep op map
    let (responses, map'') := specRun ops map'
    (response :: responses, map'')

end Reference

/-! ### One operation -/

theorem modify_middle (front back : Bucket K V) (entry : Entry K V)
    (change : Entry K V → Entry K V) :
    (front ++ entry :: back).modify front.length change = front ++ change entry :: back := by
  induction front with
  | nil => rfl
  | cons head front ih => exact congrArg (head :: ·) ih

section Stores

variable [BEq K] [Hashable K] [EquivBEq K] {s : Table K V} {key : K}

/-- A table has become one that stores what a reference holds, whatever memory is left. -/
structure Stores (map : Reference K V) (s' : Table K V) : Prop where
  invariant : Invariant s'
  contents : toMap s'.contents = map

/-- An entry of the table gets another value. -/
theorem replaced (h : Invariant s) {front back : Bucket K V} {entry : Entry K V}
    (hbucket : s.table[hashFunction key % s.capacity]? = some (front ++ entry :: back))
    (hkey : (entry.key == key) = true) (value : V) :
    Stores ((toMap s.contents).insert (keyClass key) value) { s with
      table := s.table.set (hashFunction key % s.capacity)
        (front ++ { entry with value } :: back) } := by
  obtain ⟨rest, hperm, hchange, -⟩ := contents_found hbucket
  have hchanged := hchange { entry with value }
  have hdistinct := (h.distinct.perm hperm).replace value
  refine ⟨h.set s.size ?_ (hdistinct.perm hchanged.symm) ?_, ?_⟩
  · intro other hmem
    have hold := h.placed _ _ hbucket
    rcases List.mem_append.mp hmem with hfront | hback
    · exact hold other (List.mem_append_left _ hfront)
    · rcases List.mem_cons.mp hback with rfl | hback
      · exact hold entry (List.mem_append_right _ List.mem_cons_self)
      · exact hold other (List.mem_append_right _ (List.mem_cons_of_mem _ hback))
  · rw [h.size, hchanged.length_eq, hperm.length_eq, List.length_cons, List.length_cons]
  · refine (toMap_perm hdistinct hchanged.symm).trans ?_
    rw [← toMap_perm h.distinct hperm]
    exact (insert_toMap_cons hkey value).symm

/-- An entry of the table is erased. -/
theorem erased (h : Invariant s) {front back : Bucket K V} {entry : Entry K V}
    (hbucket : s.table[hashFunction key % s.capacity]? = some (front ++ entry :: back))
    (hkey : (entry.key == key) = true) :
    Stores ((toMap s.contents).erase (keyClass key)) { s with
      table := s.table.set (hashFunction key % s.capacity) (front ++ back)
      size := s.size - 1 } := by
  obtain ⟨rest, hperm, -, herase⟩ := contents_found hbucket
  have hdistinct := h.distinct.perm hperm
  have hrest := (distinct_cons.mp hdistinct).2
  refine ⟨h.set (s.size - 1) ?_ (hrest.perm herase.symm) ?_, ?_⟩
  · intro other hmem
    refine h.placed _ _ hbucket other ?_
    rcases List.mem_append.mp hmem with hfront | hback
    · exact List.mem_append_left _ hfront
    · exact List.mem_append_right _ (List.mem_cons_of_mem _ hback)
  · rw [h.size, hperm.length_eq, herase.length_eq, List.length_cons, Nat.add_sub_cancel]
  · refine (toMap_perm hrest herase.symm).trans ?_
    rw [← toMap_perm h.distinct hperm]
    exact (erase_toMap_cons hdistinct hkey).symm

end Stores

section Step

variable [BEq K] [EquivBEq K] [Hashable K] [LawfulHashable K] {s s' : Table K V} {key : K}
  {map : Reference K V}

/-- A table stores what a reference holds, and no allocation fails. -/
structure Refines (map : Reference K V) (s' : Table K V) : Prop where
  invariant : Invariant s'
  contents : toMap s'.contents = map
  outcomes : s'.outcomes = []

/-- A new entry at the end of its bucket. -/
theorem appended (h : Invariant s) {bucket : Bucket K V}
    (hbucket : s.table[hashFunction key % s.capacity]? = some bucket)
    (hfresh : ∀ entry ∈ bucket, (entry.key == key) = false) (value : V) :
    Invariant { s with
      table := s.table.set (hashFunction key % s.capacity) (bucket ++ [⟨key, value⟩])
      size := s.size + 1 } ∧
    toMap ((s.table.set (hashFunction key % s.capacity) (bucket ++ [⟨key, value⟩])).flatten.map
      Entry.pair) = (toMap s.contents).insert (keyClass key) value := by
  obtain ⟨rest, hflatten, hset⟩ := flatten_perm hbucket
  have hentries : (s.table.set (hashFunction key % s.capacity)
      (bucket ++ [⟨key, value⟩])).flatten.Perm (⟨key, value⟩ :: s.table.flatten) := by
    refine (hset _).trans ?_
    rw [List.append_assoc, List.singleton_append]
    exact List.perm_middle.trans (hflatten.symm.cons _)
  have hperm : ((s.table.set (hashFunction key % s.capacity)
      (bucket ++ [⟨key, value⟩])).flatten.map Entry.pair).Perm ((key, value) :: s.contents) :=
    hentries.map Entry.pair
  have hdistinct : Distinct ((key, value) :: s.contents) := by
    refine distinct_cons.mpr ⟨fun pair hmem ↦ ?_, h.distinct⟩
    rw [BEq.comm]
    exact contents_missing h hbucket hfresh pair hmem
  refine ⟨h.set _ (fun entry hmem ↦ ?_) (hdistinct.perm hperm.symm) ?_, ?_⟩
  · rcases List.mem_append.mp hmem with hold | hnew
    · exact h.placed _ _ hbucket entry hold
    · rw [List.mem_singleton.mp hnew]
  · rw [hperm.length_eq, List.length_cons, h.size]
  · rw [toMap_perm hdistinct hperm.symm, toMap_cons]

/-- A bucket without an equivalent key: the key is not in the map. -/
theorem notMem_toMap (h : Invariant s) {bucket : Bucket K V}
    (hbucket : s.table[hashFunction key % s.capacity]? = some bucket)
    (hfresh : ∀ entry ∈ bucket, (entry.key == key) = false) :
    keyClass key ∉ toMap s.contents := by
  rw [mem_toMap]
  rintro ⟨pair, hmem, hkey⟩
  exact Bool.eq_false_iff.mp (contents_missing h hbucket hfresh pair hmem) hkey

/-- Adding an entry, which may rehash the table. -/
theorem insertNew_run (h : Invariant s) (hmemory : s.outcomes = []) {bucket : Bucket K V}
    (hbucket : s.table[hashFunction key % s.capacity]? = some bucket)
    (hfresh : ∀ entry ∈ bucket, (entry.key == key) = false) (value : V) :
    ∃ s', insertNew (hashFunction key % s.capacity) key value s = .ok () s' ∧
      Refines ((toMap s.contents).insert (keyClass key) value) s' := by
  obtain ⟨hinv, hmap⟩ := appended h hbucket hfresh value
  unfold insertNew
  rw [bind_ok (allocate_apply hmemory), bind_ok (modifyBucket_apply hbucket _),
    bind_ok (modify_apply _ _), bind_ok (get_apply _)]
  split_ifs with hload
  · obtain ⟨s', hrun, hinv', hperm, hmemory'⟩ := rehash_run hinv hmemory (s.capacity * 2)
    refine ⟨s', hrun, hinv', ?_, hmemory'⟩
    rw [← toMap_perm hinv'.distinct hperm]
    exact hmap
  · exact ⟨_, pure_apply () _, hinv, hmap, hmemory⟩

theorem insert_run (h : Invariant s) (hmemory : s.outcomes = []) (key : K) (value : V) :
    ∃ s', insert key value s = .ok () s' ∧
      Refines ((toMap s.contents).insert (keyClass key) value) s' := by
  obtain ⟨bucket, hbucket, hlocated⟩ := findEntry_run h.framed key
  cases hlocated with
  | found front entry back hsplit hkey hrun =>
    subst hsplit
    have hchange := modifyBucket_apply hbucket fun bucket ↦
      bucket.modify front.length fun entry ↦ { entry with value }
    rw [modify_middle] at hchange
    obtain ⟨hinv, hmap⟩ := replaced h hbucket hkey value
    exact ⟨_, (bind_ok hrun).trans hchange, hinv, hmap, hmemory⟩
  | missing hfresh hrun =>
    obtain ⟨s', hnew, hrefines⟩ := insertNew_run h hmemory hbucket hfresh value
    refine ⟨s', ?_, hrefines⟩
    rw [insert, bind_ok hrun]
    exact hnew

/-- `Find` answers as the reference does. -/
theorem find_run (h : Invariant s) (key : K) :
    find key s = .ok ((toMap s.contents).lookup (keyClass key)) s := by
  obtain ⟨bucket, hbucket, hlocated⟩ := findEntry_run h.framed key
  cases hlocated with
  | found front entry back hsplit hkey hrun =>
    subst hsplit
    obtain ⟨rest, hperm, -⟩ := contents_found hbucket
    rw [find, bind_ok hrun]
    refine (bind_ok (bucketAt_apply hbucket)).trans ?_
    have hfirst : ((entry.pair :: rest).find? fun pair ↦ pair.1 == key) = some entry.pair :=
      List.find?_cons_of_pos hkey
    rw [pure_apply, ← toMap_perm h.distinct hperm, lookup_toMap, hfirst]
    simp [Entry.pair]
  | missing hfresh hrun =>
    have hnone := List.find?_eq_none.mpr fun pair hmem ↦
      Bool.eq_false_iff.mp (contents_missing h hbucket hfresh pair hmem)
    rw [find, bind_ok hrun, lookup_toMap, hnone]
    rfl

/-- `Remove` reports whether the key was there, and allocates nothing. -/
theorem remove_stores (h : Invariant s) (key : K) :
    ∃ s', remove key s = .ok (decide (keyClass key ∈ toMap s.contents)) s' ∧
      Stores ((toMap s.contents).erase (keyClass key)) s' ∧ s'.outcomes = s.outcomes := by
  obtain ⟨bucket, hbucket, hlocated⟩ := findEntry_run h.framed key
  cases hlocated with
  | found front entry back hsplit hkey hrun =>
    subst hsplit
    have hmem : keyClass key ∈ toMap s.contents := by
      obtain ⟨rest, hperm, -⟩ := contents_found hbucket
      exact (mem_toMap _ key).mpr ⟨entry.pair, hperm.mem_iff.mpr List.mem_cons_self, hkey⟩
    refine ⟨_, ?_, erased h hbucket hkey, rfl⟩
    rw [remove, bind_ok hrun, decide_eq_true hmem]
    refine (bind_ok (modifyBucket_apply hbucket _)).trans ?_
    rw [List.eraseIdx_append_of_length_le (Nat.le_refl _), Nat.sub_self]
    rfl
  | missing hfresh hrun =>
    have hmissing := notMem_toMap h hbucket hfresh
    refine ⟨s, ?_, ⟨h, (erase_toMap_of_notMem hmissing).symm⟩, rfl⟩
    rw [remove, bind_ok hrun, decide_eq_false hmissing]
    rfl

theorem remove_run (h : Invariant s) (hmemory : s.outcomes = []) (key : K) :
    ∃ s', remove key s = .ok (decide (keyClass key ∈ toMap s.contents)) s' ∧
      Refines ((toMap s.contents).erase (keyClass key)) s' := by
  obtain ⟨s', hrun, ⟨hinv, hmap⟩, houtcomes⟩ := remove_stores h key
  exact ⟨s', hrun, hinv, hmap, houtcomes.trans hmemory⟩

/-- One operation. -/
theorem exec_run (h : Invariant s) (hmemory : s.outcomes = []) (op : Op K V) :
    ∃ s', exec op s = .ok (specStep op (toMap s.contents)).1 s' ∧
      Refines (specStep op (toMap s.contents)).2 s' := by
  cases op with
  | insert key value =>
    obtain ⟨s', hrun, hrefines⟩ := insert_run h hmemory key value
    exact ⟨s', bind_ok hrun, hrefines⟩
  | find key => exact ⟨s, bind_ok (find_run h key), h, rfl, hmemory⟩
  | remove key =>
    obtain ⟨s', hrun, hrefines⟩ := remove_run h hmemory key
    exact ⟨s', bind_ok hrun, hrefines⟩
  | rehash count =>
    obtain ⟨s', hrun, hinv, hperm, hmemory'⟩ := rehash_run h hmemory count
    exact ⟨s', bind_ok hrun, hinv, (toMap_perm hinv.distinct hperm).symm, hmemory'⟩

end Step

/-! ### Runs -/

section Runs

variable [Hashable K] {s : Table K V} {cap : ℕ}

theorem contents_construct (cap : ℕ) : (construct cap : Table K V).contents = [] := by
  rw [Table.contents, construct, (moved_replicate (K := K) (V := V) cap).perm.eq_nil, List.map_nil]

variable [BEq K]

theorem invariant_construct (hcap : 1 ≤ cap) : Invariant (construct cap : Table K V) := by
  have hmoved : Moved cap (List.replicate cap ([] : Bucket K V)) [] := moved_replicate cap
  refine ⟨hcap, hmoved.length, hmoved.placed, ?_, ?_⟩
  · rw [contents_construct]
    exact List.Pairwise.nil
  · rw [contents_construct]
    rfl

variable [EquivBEq K] [LawfulHashable K]

/-- Operations one after another. -/
theorem runOps_run (h : Invariant s) (hmemory : s.outcomes = []) (ops : List (Op K V)) :
    ∃ s', runOps ops s = .ok (specRun ops (toMap s.contents)).1 s' ∧
      Refines (specRun ops (toMap s.contents)).2 s' := by
  induction ops generalizing s with
  | nil => exact ⟨s, rfl, h, rfl, hmemory⟩
  | cons op ops ih =>
    obtain ⟨s₁, hrun₁, hrefines₁⟩ := exec_run h hmemory op
    obtain ⟨s₂, hrun₂, hrefines₂⟩ := ih hrefines₁.invariant hrefines₁.outcomes
    rw [hrefines₁.contents] at hrun₂ hrefines₂
    exact ⟨s₂, (bind_ok hrun₁).trans (bind_ok hrun₂), hrefines₂⟩

/-- A table represents a finite map: what it answers, and how it stores it. -/
structure Represents (map : Reference K V) (s : Table K V) : Prop where
  find : ∀ key, find key s = .ok (map.lookup (keyClass key)) s
  size : s.size = map.keys.card
  empty : s.isEmpty = true ↔ map = ∅
  capacity : s.capacity = s.table.length
  placed : ∀ index bucket, s.table[index]? = some bucket → ∀ entry ∈ bucket,
    hashFunction entry.key % s.capacity = index
  distinct : s.table.flatten.Pairwise fun entry entry' ↦ (entry.key == entry'.key) = false

theorem Stores.represents {map : Reference K V} (h : Stores map s) : Represents map s := by
  have hinv := h.invariant
  have hsize : s.size = map.keys.card := by
    rw [hinv.size, ← h.contents, card_keys_toMap hinv.distinct]
  refine ⟨fun key ↦ ?_, hsize, ?_, hinv.length.symm, hinv.placed,
    List.pairwise_map.mp hinv.distinct⟩
  · rw [find_run hinv key, h.contents]
  · rw [Table.isEmpty, decide_eq_true_iff, hsize, Finset.card_eq_zero, keys_eq_empty_iff]

theorem Refines.represents {map : Reference K V} (hrefines : Refines map s) : Represents map s :=
  Stores.represents ⟨hrefines.invariant, hrefines.contents⟩

/-- A table that starts empty answers any sequence of operations as a finite map does, and
represents that map at the end. -/
theorem runOps_refines (hcap : 1 ≤ cap) (ops : List (Op K V)) :
    ∃ s', runOps ops (construct cap) = .ok (specRun ops ∅).1 s' ∧
      Represents (specRun ops ∅).2 s' := by
  obtain ⟨s', hrun, hrefines⟩ := runOps_run (invariant_construct hcap) rfl ops
  rw [contents_construct, toMap_nil] at hrun hrefines
  exact ⟨s', hrun, hrefines.represents⟩

/-- One bucket, an insertion that rehashes, and a request for no bucket at all. -/
theorem runOps_refines_one :
    ∃ s', runOps [.insert 3 'a', .insert 20 'b', .remove 3, .rehash 0, .insert 20 'c']
        (construct 1) =
        .ok (specRun [.insert 3 'a', .insert 20 'b', .remove 3, .rehash 0, .insert 20 'c'] ∅).1 s' ∧
      Represents (K := ℕ) (V := Char) (specRun
        [.insert 3 'a', .insert 20 'b', .remove 3, .rehash 0, .insert 20 'c'] ∅).2 s' :=
  runOps_refines (Nat.le_refl 1) _

end Runs

end StudStuff.HashTable
