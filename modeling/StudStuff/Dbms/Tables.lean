import Mathlib.Data.Nat.Notation
import Mathlib.Tactic.SplitIfs
import StudStuff.Lib.Execution

/-!
# The tables `users` and `posts`

The rows of the two tables of `schema.sql` that the transaction writes, and the two `INSERT`
statements of the repositories with the constraints that the schema puts on them. A statement is a
function on the contents of the tables. It may add a row, leave the tables as they are, or be
rejected with a message. The values that a column takes by default, the next number of a sequence
and the time, are handed to it.
-/

set_option autoImplicit false
set_option relaxedAutoImplicit false

namespace StudStuff.Dbms

open Lib

/-! ### Rows -/

/-- A row of `users`. -/
structure UserRow where
  id : Int
  email : String
  date : String
  deriving DecidableEq, Repr

/-- A row of `posts`. -/
structure PostRow where
  id : Int
  title : String
  description : Option String
  date : String
  status : String
  authorId : Option Int
  deriving DecidableEq, Repr

/-- The contents of the two tables. -/
structure Tables where
  users : List UserRow
  posts : List PostRow
  deriving DecidableEq, Repr

/-! ### Column types and constraints -/

/-- Store a text in a column of type `VARCHAR (limit)`. A text that is too long is rejected,
unless what is too much of it are spaces. -/
def varchar (limit : ℕ) (text : String) : Except String String :=
  if text.length ≤ limit then
    .ok text
  else if (text.toList.drop limit).all (· = ' ') then
    .ok (String.ofList (text.toList.take limit))
  else
    .error ("value too long for type character varying(" ++ toString limit ++ ")")

/-- `CHECK (length(trim(text)) > 0)`. -/
def notBlank (text : String) : Bool := text.toList.any (· ≠ ' ')

/-- The message for a row that violates a constraint. -/
def violates (constraint : String) : String := "violates constraint \"" ++ constraint ++ "\""

/-! ### Statements -/

/-- `INSERT INTO users (email) VALUES ($1) ON CONFLICT (email) DO NOTHING RETURNING …`. -/
def Tables.insertUser (tables : Tables) (id : Int) (date email : String) :
    Except String (Option UserRow × Tables) := do
  let email ← varchar 255 email
  if notBlank email = false then
    throw (violates "email_not_empty")
  else if tables.users.any (·.email = email) then
    return (none, tables)
  else if tables.users.any (·.id = id) then
    throw (violates "users_pkey")
  else
    let row : UserRow := { id, email, date }
    return (some row, { tables with users := tables.users ++ [row] })

/-- `INSERT INTO posts (title, description, status, author_id) VALUES (…) RETURNING …`. -/
def Tables.insertPost (tables : Tables) (id : Int) (date title : String)
    (description : Option String) (status : String) (authorId : Option Int) :
    Except String (PostRow × Tables) := do
  let title ← varchar 255 title
  let description ← description.mapM (varchar 255)
  let status ← varchar 20 status
  if status ∉ ["draft", "published", "archived"] then
    throw (violates "check_status")
  else if notBlank title = false then
    throw (violates "title_not_empty")
  else if tables.posts.any (·.id = id) then
    throw (violates "posts_pkey")
  else if authorId.any (fun author ↦ tables.users.all (·.id ≠ author)) then
    throw (violates "fk_users_posts")
  else
    let row : PostRow := { id, title, description, date, status, authorId }
    return (row, { tables with posts := tables.posts ++ [row] })

/-! ### What the statements do -/

/-- A text that was stored is the one that was sent, cut at the limit. -/
theorem varchar_ok {limit : ℕ} {text stored : String} (h : varchar limit text = .ok stored) :
    stored = text ∨ stored.length = limit := by
  unfold varchar at h
  split_ifs at h with hfits hspaces
  · cases h
    exact Or.inl rfl
  · cases h
    right
    rw [String.length_ofList, List.length_take, String.length_toList]
    omega

/-- When `INSERT INTO users` is not rejected: the email is there, or the row is new. -/
theorem insertUser_eq_ok {tables tables' : Tables} {id : Int} {date email : String}
    {result : Option UserRow} (h : tables.insertUser id date email = .ok (result, tables')) :
    ∃ stored, varchar 255 email = .ok stored ∧ notBlank stored = true ∧
      (result = none ∧ tables' = tables ∧ stored ∈ tables.users.map (·.email) ∨
        result = some ⟨id, stored, date⟩ ∧
          tables' = { tables with users := tables.users ++ [⟨id, stored, date⟩] } ∧
            stored ∉ tables.users.map (·.email) ∧ ∀ user ∈ tables.users, user.id ≠ id) := by
  unfold Tables.insertUser at h
  obtain ⟨stored, hemail, h⟩ := exists_of_except_bind h
  refine ⟨stored, hemail, ?_⟩
  dsimp only at h
  split_ifs at h with hblank hexists hkey
  · cases h
    simp only [List.any_eq_true, decide_eq_true_eq] at hexists
    exact ⟨eq_true_of_ne_false hblank, Or.inl ⟨rfl, rfl, List.mem_map.mpr hexists⟩⟩
  · cases h
    simp only [List.any_eq_true, decide_eq_true_eq, not_exists, not_and] at hexists hkey
    refine ⟨eq_true_of_ne_false hblank, Or.inr ⟨rfl, rfl, ?_, hkey⟩⟩
    rw [List.mem_map]
    rintro ⟨user, huser, hsame⟩
    exact hexists user huser hsame

/-- When `INSERT INTO posts` is not rejected. -/
theorem insertPost_eq_ok {tables tables' : Tables} {id : Int} {date title status : String}
    {description : Option String} {authorId : Option Int} {row : PostRow}
    (h : tables.insertPost id date title description status authorId = .ok (row, tables')) :
    ∃ title' description' status', varchar 255 title = .ok title' ∧
      description.mapM (varchar 255) = .ok description' ∧ varchar 20 status = .ok status' ∧
      row = ⟨id, title', description', date, status', authorId⟩ ∧
        tables' = { tables with posts := tables.posts ++ [row] } ∧
          status' ∈ ["draft", "published", "archived"] ∧ notBlank title' = true ∧
            (∀ post ∈ tables.posts, post.id ≠ id) ∧
              ∀ author ∈ authorId, ∃ user ∈ tables.users, user.id = author := by
  unfold Tables.insertPost at h
  obtain ⟨title', htitle, h⟩ := exists_of_except_bind h
  obtain ⟨description', hdescription, h⟩ := exists_of_except_bind h
  obtain ⟨status', hstatus, h⟩ := exists_of_except_bind h
  dsimp only at h
  split_ifs at h with hlisted hblank hkey hauthor
  cases h
  simp only [List.any_eq_true, decide_eq_true_eq, not_exists, not_and] at hkey
  refine ⟨title', description', status', htitle, hdescription, hstatus, rfl, rfl, hlisted,
    eq_true_of_ne_false hblank, hkey, fun author hmem ↦ ?_⟩
  rw [show authorId = some author from hmem] at hauthor
  simpa using hauthor

end StudStuff.Dbms
