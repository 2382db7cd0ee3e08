import StudStuff.Dbms.UnitOfWork

/-!
# Creating a user with a post

The entities `User` and `Post`, whose constructors reject what is not valid, the repositories that
insert them, and the use case `CreateUserWithPost`. The texts are UTF-8: the schema counts
characters, and the entities count bytes. A text that is not valid UTF-8 is refused by the
database, as a call that throws.
-/

set_option autoImplicit false
set_option relaxedAutoImplicit false

namespace StudStuff.Dbms

open Lib

/-! ### Entities -/

/-- `kMaxLength`. -/
def kMaxLength : ℕ := 250

/-- A `User`, which is valid. -/
structure User where
  id : Int
  email : String
  date : String
  id_nonneg : 0 ≤ id
  email_ne : email.utf8ByteSize ≠ 0
  email_le : email.utf8ByteSize ≤ kMaxLength
  date_le : date.utf8ByteSize ≤ kMaxLength

/-- The constructor of `User`. -/
def User.make (id : Int) (email date : String) : Except String User :=
  if hid : id < 0 then
    .error "Id must be positive."
  else if hemail : email.utf8ByteSize > kMaxLength ∨ email.utf8ByteSize = 0 then
    .error "Incorrect email."
  else if hdate : date.utf8ByteSize > kMaxLength then
    .error "Date too long."
  else
    .ok ⟨id, email, date, by omega, by omega, by omega, by omega⟩

/-- `Post::Status`. -/
inductive Status
  | draft
  | published
  | archived
  deriving DecidableEq, Repr

/-- `StatusToString`. -/
def statusToString : Status → String
  | .draft => "draft"
  | .published => "published"
  | .archived => "archived"

/-- `StringToStatus`. -/
def stringToStatus (text : String) : Except String Status :=
  if text = "published" then
    .ok .published
  else if text = "draft" then
    .ok .draft
  else if text = "archived" then
    .ok .archived
  else
    .error ("Unknown Post status string: " ++ text)

/-- A `Post`, which is valid. -/
structure Post where
  id : Int
  title : String
  date : String
  status : Status
  authorId : Option Int
  description : Option String
  id_nonneg : 0 ≤ id
  title_le : title.utf8ByteSize ≤ kMaxLength
  title_ne : title.utf8ByteSize ≠ 0
  date_le : date.utf8ByteSize ≤ kMaxLength
  authorId_nonneg : ∀ author ∈ authorId, 0 ≤ author
  description_le : ∀ text ∈ description, text.utf8ByteSize ≤ kMaxLength

/-- The constructor of `Post`. -/
def Post.make (id : Int) (title date : String) (status : Status) (authorId : Option Int)
    (description : Option String) : Except String Post :=
  if hid : id < 0 then
    .error "Id must be positive."
  else if htitle : title.utf8ByteSize > kMaxLength then
    .error "Content too long."
  else if hempty : title.utf8ByteSize = 0 then
    .error "Title cannot be empty"
  else if hdate : date.utf8ByteSize > kMaxLength then
    .error "Date too long."
  else if hauthor : ∃ author ∈ authorId, author < 0 then
    .error "author_id must be positive."
  else if hdescription : ∃ text ∈ description, text.utf8ByteSize > kMaxLength then
    .error "Description too long."
  else
    .ok ⟨id, title, date, status, authorId, description, by omega, by omega, hempty, by omega,
      fun author hmem ↦ not_lt.mp fun hlt ↦ hauthor ⟨author, hmem, hlt⟩,
      fun text hmem ↦ not_lt.mp fun hlt ↦ hdescription ⟨text, hmem, hlt⟩⟩

/-! ### Repositories -/

/-- A constructor that may reject its arguments. -/
def orThrow {α : Type} : Except String α → DbM α
  | .ok value => pure value
  | .error what => raise what

/-- The `INSERT` of `PostgresUserRepo::Create`. -/
def insertUser (work : Work) (email : String) : DbM (Option UserRow) :=
  execInsert work (fun connection ↦ { connection with nextUserId := connection.nextUserId + 1 })
    fun connection transaction ↦
      transaction.view.insertUser connection.nextUserId transaction.now email

/-- `PostgresUserRepo::ParseRow`. -/
def parseUser (row : UserRow) : DbM User := do
  call
  orThrow (User.make row.id row.email row.date)

/-- `PostgresUserRepo::Create`. -/
def createUser (work : Work) (email : String) : DbM (Option User) := do
  match ← insertUser work email with
  | none => return none
  | some row => return some (← parseUser row)

/-- The `INSERT` of `PostgresPostRepo::Create`. -/
def insertPost (work : Work) (title : String) (description : Option String) (status : Status)
    (authorId : Option Int) : DbM PostRow :=
  execInsert work (fun connection ↦ { connection with nextPostId := connection.nextPostId + 1 })
    fun connection transaction ↦ transaction.view.insertPost connection.nextPostId transaction.now
      title description (statusToString status) authorId

/-- The rest of `PostgresPostRepo::Create`, which reads the columns of the row. -/
def parsePost (row : PostRow) : DbM Post := do
  call
  let status ← orThrow (stringToStatus row.status)
  orThrow (Post.make row.id row.title row.date status row.authorId row.description)

/-- `PostgresPostRepo::Create`. -/
def createPost (work : Work) (title : String) (description : Option String) (status : Status)
    (authorId : Option Int) : DbM Post := do
  parsePost (← insertPost work title description status authorId)

/-! ### The use case -/

/-- `CreateUserWithPost::Request`. -/
structure Request where
  title : String
  email : String
  description : Option String
  status : Status := .published

/-- `CreateUserWithPost::Response`. -/
structure Response where
  success : Bool
  message : String
  user : Option User
  post : Option Post

/-- `Response::Success`. -/
def Response.ofSuccess (user : User) (post : Post) : Response :=
  ⟨true, "User and post created successfully", some user, some post⟩

/-- `Response::Error`. -/
def Response.ofError (error : String) : Response := ⟨false, error, none, none⟩

/-- `Response::UserExists`. -/
def Response.userExists : Response := ⟨false, "User with this email already exists", none, none⟩

/-- The steps of `Execute` inside the `try`. -/
def createBoth (uow : ℕ) (request : Request) : DbM Response := do
  UnitOfWork.begin uow
  match ← createUser (← UnitOfWork.users uow) request.email with
  | none => do
    UnitOfWork.rollback uow
    return .userExists
  | some user => do
    let post ← createPost (← UnitOfWork.posts uow) request.title request.description
      request.status (some user.id)
    UnitOfWork.commit uow
    return .ofSuccess user post

/-- The handler of `Execute`. Exceptions of the `Rollback` in it are suppressed. -/
def recover (uow : ℕ) (what : String) : DbM Response := do
  catchException (UnitOfWork.rollback uow) fun _ ↦ pure ()
  return .ofError ("Database error: " ++ what)

/-- `CreateUserWithPost::Execute`. The unit of work is destroyed at the end. -/
def execute (allocator : Allocator) (connection : ℕ) (request : Request) : DbM Response := do
  if request.email = "" then
    return .ofError "Email cannot be empty"
  else if request.title = "" then
    return .ofError "Post title cannot be empty"
  else
    let uow ← create allocator connection
    let response ← catchException (createBoth uow request) (recover uow)
    UnitOfWork.destroy uow
    return response

end StudStuff.Dbms
