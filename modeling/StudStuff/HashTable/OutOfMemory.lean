import StudStuff.HashTable.Indexing
import StudStuff.HashTable.Refinement

/-!
# The hash table is a finite map when memory runs out

A program may catch `std::bad_alloc` and go on with the table (`tryOps`). An operation that throws
has not changed what the table stores, except that an insertion which fails in its rehash has added
its entry (`SpecTry`). So the table is a finite map still, whichever allocations fail
(`tryOps_refines`). `Find`, `Remove` and the insertion of a key that is stored never throw.
-/

set_option autoImplicit false
set_option relaxedAutoImplicit false

namespace StudStuff.HashTable

open Lib

variable {K V : Type} [BEq K]

/-! ### The reference -/

section Reference

variable [EquivBEq K]

/-- What an operation may do when memory can run out. It answers and acts as it should, or it throws
and has changed nothing, or it is an insertion that throws and has added its entry all the same. -/
inductive SpecTry (map : Reference K V) : Op K V → Option (Response V) → Reference K V → Prop
  | returns (op : Op K V) : SpecTry map op (some (specStep op map).1) (specStep op map).2
  | insertFails {key : K} {value : V} (hnew : keyClass key ∉ map) :
      SpecTry map (.insert key value) none map
  | insertStays {key : K} {value : V} (hnew : keyClass key ∉ map) :
      SpecTry map (.insert key value) none (map.insert (keyClass key) value)
  | rehashFails {count : ℕ} : SpecTry map (.rehash count) none map

/-- Operations on the reference one after another, some of which throw. -/
inductive SpecTries :
    Reference K V → List (Op K V) → List (Option (Response V)) → Reference K V → Prop
  | nil (map : Reference K V) : SpecTries map [] [] map
  | cons {map map₁ map₂ : Reference K V} {op : Op K V} {ops : List (Op K V)}
      {answer : Option (Response V)} {answers : List (Option (Response V))}
      (hfirst : SpecTry map op answer map₁) (hrest : SpecTries map₁ ops answers map₂) :
      SpecTries map (op :: ops) (answer :: answers) map₂

end Reference

/-! ### One operation -/

section Step

variable [Hashable K] {s : Table K V} {key : K}

theorem Invariant.spend (h : Invariant s) (count : ℕ) : Invariant (s.spend count) :=
  ⟨h.capacity, h.length, h.placed, h.distinct, h.size⟩

variable [EquivBEq K]

/-- Either `Rehash` returns or it runs out of memory. The table stores the same. -/
theorem rehash_stores (h : Invariant s) (count : ℕ) :
    Meets (rehash count) (fun _ ↦ Stores (toMap s.contents))
      (fun stop s' ↦ stop = .badAlloc ∧ Stores (toMap s.contents) s') s := by
  by_cases hprovides : s.Provides (1 + s.table.flatten.length)
  · obtain ⟨newTable, hmoved, hrun⟩ := rehash_returns hprovides count
    have hperm : (newTable.flatten.map Entry.pair).Perm s.contents := hmoved.perm.map Entry.pair
    have hdistinct := h.distinct.perm hperm.symm
    refine .of_ok hrun ⟨⟨rehashedCapacity_pos s count, hmoved.length, hmoved.placed, hdistinct,
      h.size.trans hperm.symm.length_eq⟩, ?_⟩
    exact (toMap_perm hdistinct hperm).symm
  · obtain ⟨spent, hrun⟩ := rehash_fails hprovides count
    exact .of_error hrun ⟨rfl, h.spend spent, rfl⟩

/-- What an operation may do when memory can run out. -/
abbrev Tries (program : TableM K V (Response V)) (op : Op K V) (s : Table K V) : Prop :=
  Meets program
    (fun response s' ↦ ∃ map, SpecTry (toMap s.contents) op (some response) map ∧ Stores map s')
    (fun stop s' ↦ stop = .badAlloc ∧
      ∃ map, SpecTry (toMap s.contents) op none map ∧ Stores map s') s

theorem exec_rehash_tries (h : Invariant s) (count : ℕ) :
    Tries (exec (.rehash count)) (.rehash count) s := by
  have hfails : ∀ stop s', (stop = .badAlloc ∧ Stores (toMap s.contents) s') →
      stop = Failure.badAlloc ∧
        ∃ map, SpecTry (toMap s.contents) (.rehash count) none map ∧ Stores map s' :=
    fun _ _ hstops ↦ ⟨hstops.1, _, .rehashFails, hstops.2⟩
  exact ((rehash_stores h count).mono (fun _ _ hstores ↦ hstores) hfails).bind
    fun _ _ hstores ↦ .pure ⟨_, .returns (.rehash count), hstores⟩

variable [LawfulHashable K]

/-- The table with a new entry. -/
theorem linked_stores (h : Invariant s) {bucket : Bucket K V}
    (hbucket : s.table[hashFunction key % s.capacity]? = some bucket)
    (hfresh : ∀ entry ∈ bucket, (entry.key == key) = false) (value : V) :
    Stores ((toMap s.contents).insert (keyClass key) value)
      (s.linked (hashFunction key % s.capacity) bucket ⟨key, value⟩) := by
  obtain ⟨hinv, hmap⟩ := appended h hbucket hfresh value
  exact ⟨hinv.spend 1, hmap⟩

/-- The insertion of a new key. The entry stays when only the rehash fails. -/
theorem insertNew_tries (h : Invariant s) {bucket : Bucket K V}
    (hbucket : s.table[hashFunction key % s.capacity]? = some bucket)
    (hfresh : ∀ entry ∈ bucket, (entry.key == key) = false) (value : V) :
    Meets (insertNew (hashFunction key % s.capacity) key value)
      (fun _ ↦ Stores ((toMap s.contents).insert (keyClass key) value))
      (fun stop s' ↦ stop = .badAlloc ∧ (Stores (toMap s.contents) s' ∨
        Stores ((toMap s.contents).insert (keyClass key) value) s')) s := by
  by_cases hnode : s.Provides 1
  · have hlinked := linked_stores h hbucket hfresh value
    apply Meets.of_step (insertNew_linked hnode hbucket key value)
    split_ifs with hload
    · have hrehash := rehash_stores hlinked.invariant (s.capacity * 2)
      rw [hlinked.contents] at hrehash
      exact hrehash.mono (fun _ _ hstores ↦ hstores) fun _ _ hstores ↦
        ⟨hstores.1, Or.inr hstores.2⟩
    · exact .pure hlinked
  · obtain ⟨spent, hrun⟩ := insertNew_fails hnode _ key value
    exact .of_error hrun ⟨rfl, Or.inl ⟨h.spend spent, rfl⟩⟩

/-- `Insert` stores the value, or it throws. -/
theorem insert_tries (h : Invariant s) (key : K) (value : V) :
    Meets (insert key value) (fun _ ↦ Stores ((toMap s.contents).insert (keyClass key) value))
      (fun stop s' ↦ stop = .badAlloc ∧ keyClass key ∉ toMap s.contents ∧
        (Stores (toMap s.contents) s' ∨
          Stores ((toMap s.contents).insert (keyClass key) value) s')) s := by
  obtain ⟨bucket, hbucket, hlocated⟩ := findEntry_run h.framed key
  cases hlocated with
  | found front entry back hsplit hkey hrun =>
    subst hsplit
    have hchange := modifyBucket_apply hbucket fun bucket ↦
      bucket.modify front.length fun entry ↦ { entry with value }
    rw [modify_middle] at hchange
    exact .of_ok ((bind_ok hrun).trans hchange) (replaced h hbucket hkey value)
  | missing hfresh hrun =>
    have hnew := notMem_toMap h hbucket hfresh
    refine .of_step (bind_ok hrun) ((insertNew_tries h hbucket hfresh value).mono ?_ ?_)
    · exact fun _ _ hstores ↦ hstores
    · exact fun _ _ hstops ↦ ⟨hstops.1, hnew, hstops.2⟩

theorem exec_insert_tries (h : Invariant s) (key : K) (value : V) :
    Tries (exec (.insert key value)) (.insert key value) s := by
  have hfails : ∀ stop s', (stop = .badAlloc ∧ keyClass key ∉ toMap s.contents ∧
      (Stores (toMap s.contents) s' ∨
        Stores ((toMap s.contents).insert (keyClass key) value) s')) →
      stop = Failure.badAlloc ∧
        ∃ map, SpecTry (toMap s.contents) (.insert key value) none map ∧ Stores map s' := by
    rintro _ s' ⟨rfl, hnew, hstores | hstores⟩
    · exact ⟨rfl, _, .insertFails hnew, hstores⟩
    · exact ⟨rfl, _, .insertStays hnew, hstores⟩
  exact ((insert_tries h key value).mono (fun _ _ hstores ↦ hstores) hfails).bind
    fun _ _ hstores ↦ .pure ⟨_, .returns (.insert key value), hstores⟩

/-- One operation. -/
theorem exec_tries (h : Invariant s) (op : Op K V) : Tries (exec op) op s := by
  cases op with
  | insert key value => exact exec_insert_tries h key value
  | find key => exact .of_ok (bind_ok (find_run h key)) ⟨_, .returns (.find key), h, rfl⟩
  | remove key =>
    obtain ⟨s', hrun, hstores, -⟩ := remove_stores h key
    exact .of_ok (bind_ok hrun) ⟨_, .returns (.remove key), hstores⟩
  | rehash count => exact exec_rehash_tries h count

end Step

/-! ### Runs -/

section Runs

variable [Hashable K]

/-- Run an operation, and say that there is no answer if memory has run out. -/
def tryExec (op : Op K V) : TableM K V (Option (Response V)) :=
  catching (some <$> exec op) fun
    | .badAlloc => return none
    | stop => throw stop

/-- Operations one after another, of a program that goes on when one throws. -/
def tryOps : List (Op K V) → TableM K V (List (Option (Response V)))
  | [] => return []
  | op :: ops => do
    let answer ← tryExec op
    return answer :: (← tryOps ops)

variable [EquivBEq K] [LawfulHashable K] {s : Table K V}

theorem tryExec_runs (h : Invariant s) (op : Op K V) : ∃ answer s' map,
    tryExec op s = .ok answer s' ∧ SpecTry (toMap s.contents) op answer map ∧ Stores map s' := by
  have hmeets := exec_tries h op
  cases hrun : exec op s with
  | ok response s' =>
    obtain ⟨map, hspec, hstores⟩ := hmeets.ok hrun
    have hanswer : (some <$> exec op : TableM K V _) s = .ok (some response) s' := by
      rw [← bind_pure_comp]
      exact bind_ok hrun
    exact ⟨_, s', map, catching_ok hanswer _, hspec, hstores⟩
  | error stop s' =>
    obtain ⟨rfl, map, hspec, hstores⟩ := hmeets.error hrun
    have hanswer : (some <$> exec op : TableM K V _) s = .error .badAlloc s' := by
      rw [← bind_pure_comp]
      exact bind_error hrun
    exact ⟨_, s', map, catching_error hanswer _, hspec, hstores⟩

/-- Operations one after another. -/
theorem tryOps_runs (h : Invariant s) (ops : List (Op K V)) : ∃ answers s' map,
    tryOps ops s = .ok answers s' ∧ SpecTries (toMap s.contents) ops answers map ∧
      Stores map s' := by
  induction ops generalizing s with
  | nil => exact ⟨[], s, _, rfl, .nil _, h, rfl⟩
  | cons op ops ih =>
    obtain ⟨answer, s₁, map₁, hrun₁, hspec₁, hstores₁⟩ := tryExec_runs h op
    obtain ⟨answers, s₂, map₂, hrun₂, hspec₂, hstores₂⟩ := ih hstores₁.invariant
    rw [hstores₁.contents] at hspec₂
    exact ⟨_, s₂, map₂, (bind_ok hrun₁).trans (bind_ok hrun₂), .cons hspec₁ hspec₂, hstores₂⟩

/-- The operations of a program that begins with an empty table. -/
theorem tryOps_stores {cap : ℕ} (hcap : 1 ≤ cap) (outcomes : List Bool) (ops : List (Op K V)) :
    ∃ answers s' map, tryOps ops (constructIn cap outcomes) = .ok answers s' ∧
      SpecTries ∅ ops answers map ∧ Stores map s' := by
  have hempty : Invariant (construct cap : Table K V) := invariant_construct hcap
  have hinv : Invariant (constructIn cap outcomes : Table K V) :=
    ⟨hempty.capacity, hempty.length, hempty.placed, hempty.distinct, hempty.size⟩
  have hcontents : (constructIn cap outcomes : Table K V).contents = [] := contents_construct cap
  have hruns := tryOps_runs hinv ops
  rwa [hcontents, toMap_nil] at hruns

end Runs

end StudStuff.HashTable
