import StudStuff.Dbms.Tables
import StudStuff.Lib.Execution
import StudStuff.Lib.Heap

/-!
# `PostgresUnitOfWork`

The unit of work over what libpqxx promises: constructing a `pqxx::work` throws if the connection
has an open work, the effects of a work become durable when `commit()` returns and not at all
otherwise, and `commit()`, `abort()` and the destruction of a work close it. A call that throws
leaves the work open. A connection leads to a database that nobody else changes, and whoever made
the connection keeps it alive, as the factory does.

Every call that may fail is numbered, and `failures` says which of them throw, and what. The calls
are those of the database and the allocations of `Begin`. The members of `PostgresUnitOfWork` are
in `namespace UnitOfWork`, under the names they have in the source.
-/

set_option autoImplicit false
set_option relaxedAutoImplicit false

namespace StudStuff.Dbms

open Lib

/-! ### Data -/

/-- A `pqxx::work`: the connection it was begun on, and its number. -/
structure Work where
  connection : ℕ
  number : ℕ
  deriving DecidableEq, Repr

/-- The transaction that is open on a connection: the work it belongs to, the time at which it
began and the contents that it sees. -/
structure OpenWork where
  number : ℕ
  now : String
  view : Tables
  deriving DecidableEq, Repr

/-- A `pqxx::connection` and the database behind it: the durable contents of the tables, the next
numbers of their sequences, and the transaction that is open. -/
structure Connection where
  isOpen : Bool
  tables : Tables
  nextUserId : Int
  nextPostId : Int
  work : Option OpenWork
  deriving DecidableEq, Repr

/-- The fields of a `PostgresUnitOfWork`. A repository holds a reference to a work. -/
structure UnitOfWork where
  conn : Option ℕ
  txn : Option Work
  userRepo : Option Work
  postRepo : Option Work
  tagRepo : Option Work
  commentRepo : Option Work
  isActive : Bool
  deriving DecidableEq, Repr

/-- The connections, the units of work, the works that were begun so far and when each of them
began, and the calls that were made so far and which of the calls throw. -/
structure World where
  connections : ℕ → Connection
  units : Heap ℕ UnitOfWork
  begun : ℕ
  clock : ℕ → String
  calls : ℕ
  failures : ℕ → Option String

/-- Why a program does not return: an exception, or an access through a null pointer or to an
object that does not exist. -/
inductive Stop
  | thrown (what : String)
  | badAccess
  deriving DecidableEq, Repr

/-- A program over units of work. -/
abbrev DbM := EStateM Stop World

namespace World

/-- One more call was made. -/
def called (w : World) : World := { w with calls := w.calls + 1 }

/-- The calls to come throw as they are told to. -/
def prepared (w : World) (failures : ℕ → Option String) : World :=
  { w with calls := 0, failures := failures }

/-- Change a connection. -/
def setConnection (w : World) (name : ℕ) (connection : Connection) : World :=
  { w with connections := Function.update w.connections name connection }

/-- Change a unit of work. -/
def setUnit (w : World) (name : ℕ) (unit : UnitOfWork) : World :=
  { w with units := w.units.store name unit }

/-- The lifetime of a unit of work ends. -/
def released (w : World) (name : ℕ) : World := { w with units := w.units.release name }

/-- The transaction of a work, if the work is open. -/
def open? (w : World) (work : Work) : Option OpenWork :=
  (w.connections work.connection).work.filter (·.number = work.number)

/-- A work is closed, if it was open. -/
def closed (w : World) : Option Work → World
  | none => w
  | some work =>
    match w.open? work with
    | some _ => w.setConnection work.connection { w.connections work.connection with work := none }
    | none => w

/-- A work is begun on a connection. It sees what is durable. -/
def opened (w : World) (name : ℕ) : World :=
  { w.setConnection name { w.connections name with
      work := some ⟨w.begun, w.clock w.begun, (w.connections name).tables⟩ } with
    begun := w.begun + 1 }

end World

/-! ### Exceptions -/

/-- `throw` of a `std::runtime_error`, or of another exception with a message. -/
def raise {α : Type} (what : String) : DbM α := throw (.thrown what)

/-- `catch (const std::exception &e)`, whose handler gets `e.what()`. -/
def catchException {α : Type} (program : DbM α) (handler : String → DbM α) : DbM α :=
  catching program fun
    | .thrown what => handler what
    | .badAccess => throw .badAccess

/-- A call that may fail. -/
def call : DbM Unit := fun w ↦
  match w.failures w.calls with
  | some what => .error (.thrown what) w.called
  | none => .ok () w.called

/-! ### libpqxx -/

/-- The constructor of `pqxx::work`. -/
def openWork (connection : ℕ) : DbM Work := do
  call
  let w ← get
  if (w.connections connection).work.isSome then
    raise "Started new transaction while transaction was still active."
  else
    set (w.opened connection)
    return ⟨connection, w.begun⟩

/-- The destructor of `pqxx::work`. -/
def closeWork (work : Option Work) : DbM Unit := modify (·.closed work)

/-- `commit()`. -/
def commitWork (work : Work) : DbM Unit := do
  call
  let w ← get
  match w.open? work with
  | some transaction =>
    set (w.setConnection work.connection
      { w.connections work.connection with tables := transaction.view, work := none })
  | none => raise "Attempt to commit a closed transaction."

/-- `abort()`. -/
def abortWork (work : Work) : DbM Unit := do
  call
  closeWork (some work)

/-- `exec()` of an `INSERT` statement, whose row takes the next number of a sequence. -/
def execInsert {α : Type} (work : Work) (nextval : Connection → Connection)
    (statement : Connection → OpenWork → Except String (α × Tables)) : DbM α := do
  call
  let w ← get
  let connection := w.connections work.connection
  match w.open? work with
  | none => raise "Attempt to execute a statement in a closed transaction."
  | some transaction =>
    match statement connection transaction with
    | .error what =>
      set (w.setConnection work.connection (nextval connection))
      raise what
    | .ok (result, view) =>
      set (w.setConnection work.connection
        { nextval connection with work := some { transaction with view } })
      return result

/-! ### `PostgresUnitOfWork` -/

/-- Read the fields of a unit of work. -/
def readUnit (name : ℕ) : DbM UnitOfWork := fun w ↦
  match w.units.cell name with
  | some unit => .ok unit w
  | none => .error .badAccess w

/-- Change the fields of a unit of work. -/
def modifyUnit (name : ℕ) (change : UnitOfWork → UnitOfWork) : DbM Unit := fun w ↦
  match w.units.cell name with
  | some unit => .ok () (w.setUnit name (change unit))
  | none => .error .badAccess w

/-- `*ptr`. -/
def deref {α : Type} : Option α → DbM α
  | some value => pure value
  | none => throw .badAccess

namespace UnitOfWork

/-- `txn_ = …`, which destroys the work that was there. -/
def assignTxn (self : ℕ) (txn : Option Work) : DbM Unit := do
  let unit ← readUnit self
  modifyUnit self fun unit ↦ { unit with txn := txn }
  closeWork unit.txn

/-- The fields of a new unit of work. -/
def fresh (conn : Option ℕ) : UnitOfWork where
  conn := conn
  txn := none
  userRepo := none
  postRepo := none
  tagRepo := none
  commentRepo := none
  isActive := false

/-- The constructor. -/
def construct (self : ℕ) (conn : Option ℕ) : DbM Unit := do
  if conn.isNone then
    raise "Database connection is null"
  else
    modify (·.setUnit self (fresh conn))

/-- `repo_ = std::make_unique<…>(*txn_)`. -/
def makeRepo (self : ℕ) (store : Option Work → UnitOfWork → UnitOfWork) : DbM Unit := do
  call
  modifyUnit self fun unit ↦ store unit.txn unit

/-- The repositories that `Begin` makes. -/
def makeRepos (self : ℕ) : DbM Unit := do
  makeRepo self fun txn unit ↦ { unit with userRepo := txn }
  makeRepo self fun txn unit ↦ { unit with postRepo := txn }
  makeRepo self fun txn unit ↦ { unit with tagRepo := txn }

/-- The steps of `Begin` inside the `try`. -/
def start (self : ℕ) : DbM Unit := do
  let conn ← deref (← readUnit self).conn
  let work ← openWork conn
  assignTxn self (some work)
  modifyUnit self fun unit ↦ { unit with isActive := true }
  makeRepos self

/-- `Begin`. -/
def begin (self : ℕ) : DbM Unit := do
  if (← readUnit self).isActive then
    raise "Transaction is already active"
  else
    catchException (start self) fun what ↦ do
      modifyUnit self fun unit ↦ { unit with isActive := false }
      raise ("Failed to begin transaction: " ++ what)

/-- `Cleanup`. -/
def cleanup (self : ℕ) : DbM Unit := do
  modifyUnit self fun unit ↦ { unit with isActive := false }
  modifyUnit self fun unit ↦ { unit with userRepo := none, postRepo := none, tagRepo := none }
  assignTxn self none

/-- `Commit`. -/
def commit (self : ℕ) : DbM Unit := do
  let unit ← readUnit self
  match unit.isActive, unit.txn with
  | true, some work =>
    catchException (do commitWork work; cleanup self) fun what ↦ do
      cleanup self
      raise ("Failed to commit transaction: " ++ what)
  | _, _ => raise "No active transaction to commit"

/-- `Rollback`. -/
def rollback (self : ℕ) : DbM Unit := do
  let unit ← readUnit self
  match unit.isActive, unit.txn with
  | true, some work =>
    catchException (do abortWork work; cleanup self) fun what ↦ do
      cleanup self
      raise ("Failed to rollback transaction: " ++ what)
  | _, _ => cleanup self

/-- `Users`, `Posts`, `Tags` and `Comments`, which return the repository of a field. -/
def repository (field : UnitOfWork → Option Work) (self : ℕ) : DbM Work := do
  let unit ← readUnit self
  match unit.isActive, field unit with
  | true, some repo => return repo
  | _, _ => raise "Unit of work not started."

/-- `Users`. -/
def users (self : ℕ) : DbM Work := repository userRepo self

/-- `Posts`. -/
def posts (self : ℕ) : DbM Work := repository postRepo self

/-- `Tags`. -/
def tags (self : ℕ) : DbM Work := repository tagRepo self

/-- `Comments`. -/
def comments (self : ℕ) : DbM Work := repository commentRepo self

/-- The destructor, and that of the fields. -/
def destroy (self : ℕ) : DbM Unit := do
  let unit ← readUnit self
  match unit.isActive, unit.txn with
  | true, some work =>
    catchException (abortWork work) fun _ ↦ pure ()
    cleanup self
  | _, _ => pure ()
  assignTxn self none
  modify (·.released self)

/-- What the fields of a unit of work are after they were moved from, one by one. The flag is
copied and stays. -/
def movedFrom (unit : UnitOfWork) : UnitOfWork where
  conn := none
  txn := none
  userRepo := none
  postRepo := none
  tagRepo := none
  commentRepo := none
  isActive := unit.isActive

/-- The move constructor. -/
def moveConstruct (self other : ℕ) : DbM Unit := do
  let unit ← readUnit other
  modifyUnit other movedFrom
  modify (·.setUnit self unit)

/-- The move assignment. -/
def moveAssign (self other : ℕ) : DbM Unit := do
  let unit ← readUnit other
  modifyUnit other movedFrom
  assignTxn self unit.txn
  modifyUnit self fun _ ↦ unit

end UnitOfWork

/-! ### `PostgresUnitOfWorkFactory` -/

/-- `Create`, which makes a unit of work at a fresh address. -/
def create (allocator : Allocator) (connection : ℕ) : DbM ℕ := do
  let w ← get
  if (w.connections connection).isOpen then
    let self := allocator.pick w.begun w.units.live
    UnitOfWork.construct self (some connection)
    return self
  else
    raise "Database connection is not available"

end StudStuff.Dbms
