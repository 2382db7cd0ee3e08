import Mathlib.Data.Nat.Notation

/-!
# The hash table

The data and the member functions of `hash_table.h`. An iterator into a bucket is a position, and
the end of a bucket is its length. `kLoadFactor` is the rational `3 / 4`, which is what comparing
and dividing by the `double` computes for counts below `2 ^ 50`; counts are exact, as no memory
holds more.

A program stops with a `Failure` where the source would divide by zero or index a vector out of
range, and where memory runs out: `outcomes` lists whether the coming allocations succeed, and all
those beyond its end do. A node of a list is allocated together with the copy of the entry in it.
-/

set_option autoImplicit false
set_option relaxedAutoImplicit false

namespace StudStuff.HashTable

/-! ### Data -/

/-- `Entry`. -/
structure Entry (K V : Type) where
  key : K
  value : V
  deriving DecidableEq, Repr

/-- `Bucket`. -/
abbrev Bucket (K V : Type) := List (Entry K V)

/-- The fields of a table, and the outcomes of the allocations to come. -/
structure Table (K V : Type) where
  table : List (Bucket K V)
  size : ℕ
  capacity : ℕ
  outcomes : List Bool
  deriving Repr

/-- Why a member function does not return. -/
inductive Failure
  | badAlloc
  | divisionByZero
  | outOfRange
  deriving DecidableEq, Repr

/-- A member function of a table. -/
abbrev TableM (K V : Type) := EStateM Failure (Table K V)

variable {K V : Type}

/-! ### Accesses -/

/-- One allocation. -/
def allocate : TableM K V Unit := fun s ↦
  match s.outcomes with
  | [] => .ok () s
  | true :: rest => .ok () { s with outcomes := rest }
  | false :: rest => .error .badAlloc { s with outcomes := rest }

/-- `value % count`. -/
def modulo (value count : ℕ) : TableM K V ℕ :=
  if count = 0 then throw .divisionByZero else return value % count

/-- `table_[index]`. -/
def bucketAt (index : ℕ) : TableM K V (Bucket K V) := fun s ↦
  match s.table[index]? with
  | some bucket => .ok bucket s
  | none => .error .outOfRange s

/-- Change `table_[index]`. -/
def modifyBucket (index : ℕ) (change : Bucket K V → Bucket K V) : TableM K V Unit := do
  let bucket ← bucketAt index
  modify fun s ↦ { s with table := s.table.set index (change bucket) }

/-- `newTable[index].push_back(entry)`, for the local table of `Rehash`. -/
def pushBack (newTable : List (Bucket K V)) (index : ℕ) (entry : Entry K V) :
    TableM K V (List (Bucket K V)) :=
  match newTable[index]? with
  | some bucket => do
    allocate
    return newTable.set index (bucket ++ [entry])
  | none => throw .outOfRange

/-! ### Member functions -/

section Members

variable [BEq K] [Hashable K]

/-- `HashFunction`. -/
def hashFunction (key : K) : ℕ := (hash key).toNat

/-- `Index`. -/
def index (key : K) : TableM K V ℕ := do
  modulo (hashFunction key) (← get).capacity

/-- `FindEntry`. -/
def findEntry (key : K) : TableM K V (ℕ × ℕ × Bool) := do
  let index ← index key
  let bucket ← bucketAt index
  let iter := bucket.findIdx fun entry ↦ entry.key == key
  return (index, iter, iter != bucket.length)

/-- Copy the entries of a bucket to the new table. -/
def moveBucket (newCapacity : ℕ) :
    Bucket K V → List (Bucket K V) → TableM K V (List (Bucket K V))
  | [], newTable => return newTable
  | entry :: entries, newTable => do
    let newIndex ← modulo (hashFunction entry.key) newCapacity
    moveBucket newCapacity entries (← pushBack newTable newIndex entry)

/-- Copy the entries of all buckets to the new table. -/
def moveBuckets (newCapacity : ℕ) :
    List (Bucket K V) → List (Bucket K V) → TableM K V (List (Bucket K V))
  | [], newTable => return newTable
  | bucket :: buckets, newTable => do
    moveBuckets newCapacity buckets (← moveBucket newCapacity bucket newTable)

/-- `(size() + 1) / kLoadFactor`, truncated. -/
def minBuckets (size : ℕ) : ℕ := 4 * (size + 1) / 3

/-- `Rehash`. -/
def rehash (count : ℕ) : TableM K V Unit := do
  let s ← get
  let newCapacity := max count (minBuckets s.size)
  allocate
  let newTable ← moveBuckets newCapacity s.table (List.replicate newCapacity [])
  modify fun s ↦ { s with table := newTable, capacity := newCapacity }

/-- The part of `Insert` that adds an entry. -/
def insertNew (index : ℕ) (key : K) (value : V) : TableM K V Unit := do
  allocate
  modifyBucket index (· ++ [⟨key, value⟩])
  modify fun s ↦ { s with size := s.size + 1 }
  let s ← get
  if 3 * s.capacity < 4 * s.size then
    rehash (s.capacity * 2)

/-- `Insert`. -/
def insert (key : K) (value : V) : TableM K V Unit := do
  let (index, iter, found) ← findEntry key
  if found then
    modifyBucket index fun bucket ↦ bucket.modify iter fun entry ↦ { entry with value }
  else
    insertNew index key value

/-- `Find`. -/
def find (key : K) : TableM K V (Option V) := do
  let (index, iter, found) ← findEntry key
  if found then
    return (← bucketAt index)[iter]?.map Entry.value
  else
    return none

/-- `Remove`. -/
def remove (key : K) : TableM K V Bool := do
  let (index, iter, found) ← findEntry key
  if found then
    modifyBucket index fun bucket ↦ bucket.eraseIdx iter
    modify fun s ↦ { s with size := s.size - 1 }
  return found

/-- The constructor. -/
def construct (cap : ℕ) : Table K V where
  table := List.replicate cap []
  size := 0
  capacity := cap
  outcomes := []

/-- `empty`. -/
def Table.isEmpty (s : Table K V) : Bool := s.size = 0

/-! ### The interface -/

/-- An operation on a table. -/
inductive Op (K V : Type)
  | insert (key : K) (value : V)
  | find (key : K)
  | remove (key : K)
  | rehash (count : ℕ)
  deriving DecidableEq, Repr

/-- What an operation returns. -/
inductive Response (V : Type)
  | done
  | found (value : Option V)
  | removed (present : Bool)
  deriving DecidableEq, Repr

/-- Run one operation. -/
def exec : Op K V → TableM K V (Response V)
  | .insert key value => do
    HashTable.insert key value
    return .done
  | .find key => do return .found (← HashTable.find key)
  | .remove key => do return .removed (← HashTable.remove key)
  | .rehash count => do
    HashTable.rehash count
    return .done

/-- Run operations one after another. -/
def runOps : List (Op K V) → TableM K V (List (Response V))
  | [] => return []
  | op :: ops => do
    let response ← exec op
    return response :: (← runOps ops)

end Members

end StudStuff.HashTable
