import StudStuff.Dbms.Journal
import StudStuff.Dbms.Datagen

/-!
# Importing the data

`import.sql`, as `psql` runs it: one transaction that copies the five files into the tables, without
a check of the references, and sets the sequences to the largest numbers. A file that `psql` cannot
open is left out. After an error nothing of the transaction stays but what was done to the
sequences.

Whatever is in the files, the tables keep to their keys and checks and the sequences stay ahead of
the numbers in use (`importSql_keeps`). Whoever imports the same files twice gets an error the
second time, unless there was nothing to import (`importSql_twice`).
-/

set_option autoImplicit false
set_option relaxedAutoImplicit false

namespace StudStuff.Dbms

open Lib Lib.Csv

/-! ### The database -/

/-- The next numbers of the sequences. -/
structure Sequences where
  users : Int
  tags : Int
  posts : Int
  comments : Int
  postTags : Int
  deriving DecidableEq, Repr

/-- The tables and sequences of `schema.sql`. -/
structure Database where
  tables : Tables
  forum : Forum
  next : Sequences
  deriving DecidableEq, Repr

/-- The database after `schema.sql`. -/
def Database.fresh : Database := ⟨⟨[], []⟩, ⟨[], [], []⟩, ⟨1, 1, 1, 1, 1⟩⟩

/-- The value of a column in a file, or null. -/
abbrev Value := Option (List Char)

/-- What PostgreSQL makes of the text of a number, and of a time or a null, which are kept here as
the text that they are shown as. -/
structure Server where
  int4 : List Char → Option Int
  timestamptz : Value → Option String

/-- How the rows of a table are made of values, and which constraints say of two rows that they must
not be alike. -/
structure TableSpec (ρ : Type) where
  rowOf : List Value → Except String ρ
  unique : List (String × (ρ → ρ → Bool))

section Rows

variable (server : Server)

/-- A value in a column of type `INT`. -/
def Server.integer : Value → Except String (Option Int)
  | none => .ok none
  | some text =>
    match server.int4 text with
    | none => .error "invalid input syntax for type integer"
    | some number => .ok (some number)

/-- A value in a column of type `TIMESTAMPTZ`. -/
def Server.date (value : Value) : Except String String :=
  match server.timestamptz value with
  | none => .error "invalid input syntax for type timestamp with time zone"
  | some date => .ok date

/-- A value in a column of type `VARCHAR (limit)`. -/
def varcharValue (limit : ℕ) (value : Value) : Except String (Option String) :=
  (value.map String.ofList).mapM (varchar limit)

/-- `NOT NULL`. -/
def notNull {α : Type} (column : String) : Option α → Except String α
  | none => .error ("null value in column \"" ++ column ++ "\" violates not-null constraint")
  | some value => .ok value

/-- A line with another number of columns. -/
def wrongColumns : String := "missing data or extra data after last expected column"

def userOf : List Value → Except String UserRow
  | [id, email, date] => do
    let id ← server.integer id
    let email ← varcharValue 255 email
    let date ← server.date date
    let id ← notNull "id" id
    let email ← notNull "email" email
    if notBlank email = false then throw (violates "email_not_empty")
    return ⟨id, email, date⟩
  | _ => throw wrongColumns

def tagOf : List Value → Except String TagRow
  | [id, name] => do
    let id ← server.integer id
    let name ← varcharValue 255 name
    let id ← notNull "id" id
    let name ← notNull "name" name
    if notBlank name = false then throw (violates "name_not_empty")
    return ⟨id, name.toList⟩
  | _ => throw wrongColumns

def postOf : List Value → Except String PostRow
  | [id, title, description, date, status, authorId] => do
    let id ← server.integer id
    let title ← varcharValue 255 title
    let description ← varcharValue 255 description
    let date ← server.date date
    let status ← varcharValue 20 status
    let authorId ← server.integer authorId
    let id ← notNull "id" id
    let title ← notNull "title" title
    let status ← notNull "status" status
    if status ∉ ["draft", "published", "archived"] then throw (violates "check_status")
    if notBlank title = false then throw (violates "title_not_empty")
    return ⟨id, title, description, date, status, authorId⟩
  | _ => throw wrongColumns

def commentOf : List Value → Except String CommentRow
  | [id, content, date, authorId, postId] => do
    let id ← server.integer id
    let content ← varcharValue 255 content
    let date ← server.date date
    let authorId ← server.integer authorId
    let postId ← server.integer postId
    let id ← notNull "id" id
    let content ← notNull "content" content
    let postId ← notNull "post_id" postId
    if notBlank content = false then throw (violates "content_not_empty")
    return ⟨id, content, date, authorId, postId⟩
  | _ => throw wrongColumns

def postTagOf : List Value → Except String PostTagRow
  | [id, postId, tagId] => do
    let id ← server.integer id
    let postId ← server.integer postId
    let tagId ← server.integer tagId
    let id ← notNull "id" id
    let postId ← notNull "post_id" postId
    let tagId ← notNull "tag_id" tagId
    return ⟨id, postId, tagId⟩
  | _ => throw wrongColumns

/-- `UNIQUE` or `PRIMARY KEY`, on a column or several. -/
def uniqueOn {ρ κ : Type} [DecidableEq κ] (constraint : String) (key : ρ → κ) :
    String × (ρ → ρ → Bool) :=
  (constraint, fun row other ↦ key row = key other)

def usersTable : TableSpec UserRow where
  rowOf := userOf server
  unique := [uniqueOn "users_pkey" (·.id), uniqueOn "users_email_key" (·.email)]

def tagsTable : TableSpec TagRow where
  rowOf := tagOf server
  unique := [uniqueOn "tags_pkey" (·.id), uniqueOn "tags_name_key" (·.name)]

def postsTable : TableSpec PostRow where
  rowOf := postOf server
  unique := [uniqueOn "posts_pkey" (·.id)]

def commentsTable : TableSpec CommentRow where
  rowOf := commentOf server
  unique := [uniqueOn "comments_pkey" (·.id)]

def postTagsTable : TableSpec PostTagRow where
  rowOf := postTagOf server
  unique := [uniqueOn "post_tags_pkey" (·.id),
    uniqueOn "unique_post_tag" fun row ↦ (row.postId, row.tagId)]

end Rows

/-! ### The script -/

/-- The files in the directory, as far as they are there. -/
structure DataDir where
  users : Option (List Char)
  posts : Option (List Char)
  tags : Option (List Char)
  comments : Option (List Char)
  postTags : Option (List Char)
  deriving DecidableEq, Repr

/-- What `\COPY` sends of a file: the lines before one with `\.` alone. -/
def sentLines (atLineStart : Bool) : List Char → List Char
  | [] => []
  | ch :: rest =>
    if atLineStart ∧ ch = '\\' ∧ (rest.take 2 = ['.', '\n'] ∨ rest.take 3 = ['.', '\r', '\n']) then
      []
    else
      ch :: sentLines (ch = '\n') rest

section Copy

variable {ρ : Type} (spec : TableSpec ρ)

/-- A row that is copied into a table. -/
def TableSpec.insert (rows : List ρ) (values : List Value) : Except String (List ρ) := do
  let row ← spec.rowOf values
  match spec.unique.find? fun constraint ↦ rows.any (constraint.2 row) with
  | some constraint => throw (violates constraint.1)
  | none => return rows ++ [row]

/-- `\COPY … FROM … DELIMITER ',' CSV`. -/
def TableSpec.copyFrom (file : Option (List Char)) (rows : List ρ) : Except String (List ρ) :=
  match file with
  | none => return rows
  | some text =>
    match copyRows (sentLines true text) with
    | none => throw "malformed CSV"
    | some values => values.foldlM spec.insert rows

end Copy

/-- `setval(…, (SELECT MAX(id) FROM …))`, from the next number to the next number. -/
def setval (ids : List Int) (next : Int) : Except String Int :=
  match ids.max? with
  | none => return next
  | some id =>
    if 1 ≤ id ∧ id ≤ 2147483647 then return id + 1
    else throw "value is out of bounds for sequence"

/-- A command of the transaction. -/
def attempt {α : Type} : Except String α → EStateM String Database α
  | .ok value => pure value
  | .error message => throw message

/-- The commands between `BEGIN` and `COMMIT` that change the database. -/
def importCommands (server : Server) (dir : DataDir) (before : Database) :
    EStateM String Database Unit := do
  let users ← attempt ((usersTable server).copyFrom dir.users before.tables.users)
  let tags ← attempt ((tagsTable server).copyFrom dir.tags before.forum.tags)
  let posts ← attempt ((postsTable server).copyFrom dir.posts before.tables.posts)
  let comments ← attempt ((commentsTable server).copyFrom dir.comments before.forum.comments)
  let postTags ← attempt ((postTagsTable server).copyFrom dir.postTags before.forum.postTags)
  modify fun db ↦ { db with tables := ⟨users, posts⟩, forum := ⟨comments, tags, postTags⟩ }
  let next ← attempt (setval (users.map (·.id)) before.next.users)
  modify fun db ↦ { db with next.users := next }
  let next ← attempt (setval (tags.map (·.id)) before.next.tags)
  modify fun db ↦ { db with next.tags := next }
  let next ← attempt (setval (posts.map (·.id)) before.next.posts)
  modify fun db ↦ { db with next.posts := next }
  let next ← attempt (setval (comments.map (·.id)) before.next.comments)
  modify fun db ↦ { db with next.comments := next }
  let next ← attempt (setval (postTags.map (·.id)) before.next.postTags)
  modify fun db ↦ { db with next.postTags := next }

/-- `import.sql`. What was done to a sequence is not rolled back. -/
def importSql (server : Server) (dir : DataDir) : EStateM String Database Unit := do
  let before ← get
  catching (importCommands server dir before) fun message ↦ do
    modify fun db ↦ { db with tables := before.tables, forum := before.forum }
    throw message

/-! ### Rows and keys -/

section RowsAndKeys

variable {server : Server}

theorem notNull_ok {α : Type} {column : String} {value : Option α} {stored : α}
    (h : notNull column value = .ok stored) : value = some stored := by
  cases value with
  | none => cases h
  | some value =>
    cases h
    rfl

/-- A text that is not null and was stored fits into its column. -/
theorem varcharValue_length {limit : ℕ} {value : Value} {text : Option String} {column : String}
    {stored : String} (h : varcharValue limit value = .ok text)
    (hstored : notNull column text = .ok stored) : stored.length ≤ limit :=
  mapM_varchar_length h stored (notNull_ok hstored)

/-- The constraints of `users` on a row. -/
def UserRow.Fits (user : UserRow) : Prop := user.email.length ≤ 255 ∧ notBlank user.email = true

/-- The constraints of `tags` on a row. -/
def TagRow.Fits (tag : TagRow) : Prop :=
  tag.name.length ≤ 255 ∧ notBlank (String.ofList tag.name) = true

/-- The constraints of `posts` on a row. -/
def PostRow.Fits (post : PostRow) : Prop :=
  post.title.length ≤ 255 ∧ notBlank post.title = true ∧
    (∀ text ∈ post.description, text.length ≤ 255) ∧
      post.status ∈ ["draft", "published", "archived"]

/-- The constraints of `comments` on a row. -/
def CommentRow.Fits (comment : CommentRow) : Prop :=
  comment.content.length ≤ 255 ∧ notBlank comment.content = true

theorem userOf_ok {values : List Value} {user : UserRow}
    (h : userOf server values = .ok user) : user.Fits := by
  unfold userOf at h
  split at h
  next id email date =>
    obtain ⟨_, -, h⟩ := exists_of_except_bind h
    obtain ⟨_, htext, h⟩ := exists_of_except_bind h
    obtain ⟨_, -, h⟩ := exists_of_except_bind h
    obtain ⟨_, -, h⟩ := exists_of_except_bind h
    obtain ⟨stored, hstored, h⟩ := exists_of_except_bind h
    dsimp only at h
    split_ifs at h with hblank
    · cases h
    · cases h
      exact ⟨varcharValue_length htext hstored, Bool.eq_true_of_not_eq_false hblank⟩
  next => cases h

theorem tagOf_ok {values : List Value} {tag : TagRow}
    (h : tagOf server values = .ok tag) : tag.Fits := by
  unfold tagOf at h
  split at h
  next id name =>
    obtain ⟨_, -, h⟩ := exists_of_except_bind h
    obtain ⟨_, htext, h⟩ := exists_of_except_bind h
    obtain ⟨_, -, h⟩ := exists_of_except_bind h
    obtain ⟨stored, hstored, h⟩ := exists_of_except_bind h
    dsimp only at h
    split_ifs at h with hblank
    · cases h
    · cases h
      refine ⟨(String.length_toList).trans_le (varcharValue_length htext hstored), ?_⟩
      rw [String.ofList_toList]
      exact Bool.eq_true_of_not_eq_false hblank
  next => cases h

theorem postOf_ok {values : List Value} {post : PostRow}
    (h : postOf server values = .ok post) : post.Fits := by
  unfold postOf at h
  split at h
  next id title description date status authorId =>
    obtain ⟨_, -, h⟩ := exists_of_except_bind h
    obtain ⟨_, htitle, h⟩ := exists_of_except_bind h
    obtain ⟨_, hdescription, h⟩ := exists_of_except_bind h
    obtain ⟨_, -, h⟩ := exists_of_except_bind h
    obtain ⟨_, -, h⟩ := exists_of_except_bind h
    obtain ⟨_, -, h⟩ := exists_of_except_bind h
    obtain ⟨_, -, h⟩ := exists_of_except_bind h
    obtain ⟨stored, hstored, h⟩ := exists_of_except_bind h
    obtain ⟨_, -, h⟩ := exists_of_except_bind h
    dsimp only at h
    split_ifs at h with hstatus hblank <;> cases h
    exact ⟨varcharValue_length htitle hstored, Bool.eq_true_of_not_eq_false hblank,
      mapM_varchar_length hdescription, hstatus⟩
  next => cases h

theorem commentOf_ok {values : List Value} {comment : CommentRow}
    (h : commentOf server values = .ok comment) : comment.Fits := by
  unfold commentOf at h
  split at h
  next id content date authorId postId =>
    obtain ⟨_, -, h⟩ := exists_of_except_bind h
    obtain ⟨_, htext, h⟩ := exists_of_except_bind h
    obtain ⟨_, -, h⟩ := exists_of_except_bind h
    obtain ⟨_, -, h⟩ := exists_of_except_bind h
    obtain ⟨_, -, h⟩ := exists_of_except_bind h
    obtain ⟨_, -, h⟩ := exists_of_except_bind h
    obtain ⟨stored, hstored, h⟩ := exists_of_except_bind h
    obtain ⟨_, -, h⟩ := exists_of_except_bind h
    dsimp only at h
    split_ifs at h with hblank
    · cases h
    · cases h
      exact ⟨varcharValue_length htext hstored, Bool.eq_true_of_not_eq_false hblank⟩
  next => cases h

end RowsAndKeys

/-! ### Copying -/

section Copying

variable {ρ : Type} {spec : TableSpec ρ} {rows rows' : List ρ}

/-- The rows of a file. -/
def TableSpec.rowsOf (spec : TableSpec ρ) : Option (List Char) → Except String (List ρ)
  | none => .ok []
  | some text =>
    match copyRows (sentLines true text) with
    | none => .error "malformed CSV"
    | some values => values.mapM spec.rowOf

theorem unique_uniqueOn {κ : Type} [DecidableEq κ] (constraint : String) (key : ρ → κ) :
    (rows.Pairwise fun other row ↦ (uniqueOn constraint key).2 row other = false) ↔
      (rows.map key).Nodup := by
  rw [List.Nodup, List.pairwise_map]
  refine ⟨fun h ↦ h.imp fun hne heq ↦ ?_, fun h ↦ h.imp fun hne ↦ ?_⟩
  · exact of_decide_eq_false hne heq.symm
  · exact decide_eq_false (Ne.symm hne)

theorem insert_ok {values : List Value} (h : spec.insert rows values = .ok rows') :
    ∃ row, spec.rowOf values = .ok row ∧ rows' = rows ++ [row] ∧
      ∀ constraint ∈ spec.unique, ∀ other ∈ rows, constraint.2 row other = false := by
  obtain ⟨row, hrow, h⟩ := exists_of_except_bind h
  split at h
  next => cases h
  next hnone =>
    cases h
    refine ⟨row, hrow, rfl, fun constraint hmem other hother ↦ ?_⟩
    have hany := List.find?_eq_none.mp hnone constraint hmem
    exact Bool.eq_false_iff.mpr fun hclash ↦ hany (List.any_eq_true.mpr ⟨other, hother, hclash⟩)

/-- What is copied is added after the old rows, and no row of it is like one before. -/
structure Copied (spec : TableSpec ρ) (rows added : List ρ) : Prop where
  fresh : ∀ constraint ∈ spec.unique, ∀ row ∈ added, ∀ other ∈ rows, constraint.2 row other = false
  unique : ∀ constraint ∈ spec.unique, added.Pairwise fun other row ↦ constraint.2 row other = false

theorem Copied.nil : Copied spec rows [] := ⟨nofun, fun _ _ ↦ List.Pairwise.nil⟩

theorem foldlM_insert_ok {values : List (List Value)}
    (h : values.foldlM spec.insert rows = .ok rows') :
    ∃ added, values.mapM spec.rowOf = .ok added ∧ rows' = rows ++ added ∧
      Copied spec rows added := by
  induction values generalizing rows with
  | nil =>
    cases h
    exact ⟨[], rfl, (List.append_nil _).symm, .nil⟩
  | cons line values ih =>
    rw [List.foldlM_cons] at h
    obtain ⟨_, hinsert, h⟩ := exists_of_except_bind h
    obtain ⟨row, hrow, rfl, hnew⟩ := insert_ok hinsert
    obtain ⟨added, hadded, rfl, hcopied⟩ := ih h
    refine ⟨row :: added, ?_, by rw [List.append_assoc]; rfl, fun constraint hmem row' hrow' other
      hother ↦ ?_, fun constraint hmem ↦ ?_⟩
    · rw [List.mapM_cons, hrow, hadded]
      rfl
    · rcases List.mem_cons.mp hrow' with rfl | hlater
      · exact hnew constraint hmem other hother
      · exact hcopied.fresh constraint hmem row' hlater other (List.mem_append_left _ hother)
    · refine List.pairwise_cons.mpr ⟨fun row' hrow' ↦ ?_, hcopied.unique constraint hmem⟩
      have hself : row ∈ rows ++ [row] := List.mem_append_right _ (List.mem_singleton_self _)
      exact hcopied.fresh constraint hmem row' hrow' row hself

/-- A copy that succeeds adds the rows of the file. -/
theorem copyFrom_ok {file : Option (List Char)} (h : spec.copyFrom file rows = .ok rows') :
    ∃ added, spec.rowsOf file = .ok added ∧ rows' = rows ++ added ∧ Copied spec rows added := by
  cases file with
  | none =>
    cases h
    exact ⟨[], rfl, (List.append_nil _).symm, .nil⟩
  | some text =>
    unfold TableSpec.copyFrom at h
    unfold TableSpec.rowsOf
    dsimp only at h ⊢
    cases hvalues : copyRows (sentLines true text) with
    | none =>
      rw [hvalues] at h
      cases h
    | some values =>
      rw [hvalues] at h
      exact foldlM_insert_ok h

theorem copyFrom_nodup {κ : Type} [DecidableEq κ] {constraint : String} {key : ρ → κ}
    {file : Option (List Char)} (h : spec.copyFrom file rows = .ok rows')
    (hmem : uniqueOn constraint key ∈ spec.unique) (hkeys : (rows.map key).Nodup) :
    (rows'.map key).Nodup := by
  obtain ⟨added, -, rfl, hcopied⟩ := copyFrom_ok h
  rw [← unique_uniqueOn constraint] at hkeys ⊢
  refine List.pairwise_append.mpr ⟨hkeys, hcopied.unique _ hmem, ?_⟩
  exact fun other hother row hrow ↦ hcopied.fresh _ hmem row hrow other hother

theorem mem_of_mapM_ok {values : List (List Value)} {added : List ρ}
    (h : values.mapM spec.rowOf = .ok added) :
    ∀ row ∈ added, ∃ line ∈ values, spec.rowOf line = .ok row := by
  induction values generalizing added with
  | nil =>
    cases h
    exact nofun
  | cons line values ih =>
    rw [List.mapM_cons] at h
    obtain ⟨row, hrow, h⟩ := exists_of_except_bind h
    obtain ⟨rest, hrest, h⟩ := exists_of_except_bind h
    cases h
    refine List.forall_mem_cons.mpr ⟨⟨line, List.mem_cons_self, hrow⟩, fun row' hmem ↦ ?_⟩
    obtain ⟨line', hline', hrow'⟩ := ih hrest row' hmem
    exact ⟨line', List.mem_cons_of_mem _ hline', hrow'⟩

theorem mem_of_rowsOf {file : Option (List Char)} {added : List ρ}
    (h : spec.rowsOf file = .ok added) : ∀ row ∈ added, ∃ line, spec.rowOf line = .ok row := by
  unfold TableSpec.rowsOf at h
  split at h
  · cases h
    exact nofun
  · split at h
    · cases h
    · intro row hmem
      obtain ⟨line, -, hrow⟩ := mem_of_mapM_ok h row hmem
      exact ⟨line, hrow⟩

/-- What holds of every row that is made of a line holds of the table. -/
theorem copyFrom_all {fits : ρ → Prop} {file : Option (List Char)}
    (h : spec.copyFrom file rows = .ok rows')
    (hrow : ∀ {line row}, spec.rowOf line = .ok row → fits row) (hold : ∀ row ∈ rows, fits row) :
    ∀ row ∈ rows', fits row := by
  obtain ⟨added, hadded, rfl, -⟩ := copyFrom_ok h
  refine List.forall_mem_append.mpr ⟨hold, fun row hmem ↦ ?_⟩
  obtain ⟨line, hline⟩ := mem_of_rowsOf hadded row hmem
  exact hrow hline

theorem copyFrom_subset {file : Option (List Char)} (h : spec.copyFrom file rows = .ok rows') :
    rows ⊆ rows' := by
  obtain ⟨added, -, rfl, -⟩ := copyFrom_ok h
  exact List.subset_append_left _ _

end Copying

/-! ### Sequences -/

section Numbers

/-- The next number is above all that are in use. -/
structure NumbersAhead (ids : List Int) (next : Int) : Prop where
  nonneg : 0 ≤ next
  above : ∀ id ∈ ids, id < next

theorem NumbersAhead.subset {ids ids' : List Int} {next : Int} (h : NumbersAhead ids' next)
    (hsubset : ids ⊆ ids') : NumbersAhead ids next :=
  ⟨h.nonneg, fun id hid ↦ h.above id (hsubset hid)⟩

theorem setval_ahead {ids : List Int} {next next' : Int} (hnonneg : 0 ≤ next)
    (h : setval ids next = .ok next') : NumbersAhead ids next' := by
  unfold setval at h
  split at h
  next hnone =>
    cases h
    rw [List.max?_eq_none_iff.mp hnone]
    exact ⟨hnonneg, nofun⟩
  next largest hsome =>
    split_ifs at h with hbounds
    cases h
    refine ⟨by omega, fun id hid ↦ ?_⟩
    exact Int.lt_add_one_of_le ((List.max?_eq_some_iff.mp hsome).2 id hid)

end Numbers

/-! ### Any files -/

section AnyFiles

/-- The keys and checks of `schema.sql`, without the references. -/
structure Database.Keyed (db : Database) : Prop where
  userIds : (db.tables.users.map (·.id)).Nodup
  emails : (db.tables.users.map (·.email)).Nodup
  users : ∀ user ∈ db.tables.users, user.Fits
  tagIds : (db.forum.tags.map (·.id)).Nodup
  tagNames : (db.forum.tags.map (·.name)).Nodup
  tags : ∀ tag ∈ db.forum.tags, tag.Fits
  postIds : (db.tables.posts.map (·.id)).Nodup
  posts : ∀ post ∈ db.tables.posts, post.Fits
  commentIds : (db.forum.comments.map (·.id)).Nodup
  comments : ∀ comment ∈ db.forum.comments, comment.Fits
  postTagIds : (db.forum.postTags.map (·.id)).Nodup
  pairs : (db.forum.postTags.map fun row ↦ (row.postId, row.tagId)).Nodup

/-- The sequences are ahead of the numbers in use. -/
structure Database.Ahead (db : Database) : Prop where
  users : NumbersAhead (db.tables.users.map (·.id)) db.next.users
  tags : NumbersAhead (db.forum.tags.map (·.id)) db.next.tags
  posts : NumbersAhead (db.tables.posts.map (·.id)) db.next.posts
  comments : NumbersAhead (db.forum.comments.map (·.id)) db.next.comments
  postTags : NumbersAhead (db.forum.postTags.map (·.id)) db.next.postTags

variable {server : Server} {db db' : Database}

theorem meets_attempt {α β : Type} {result : Except String α}
    {next : α → EStateM String Database β} {returns : β → Database → Prop}
    {stops : String → Database → Prop}
    (hok : ∀ value, result = .ok value → Meets (next value) returns stops db)
    (herror : ∀ message, result = .error message → stops message db) :
    Meets (attempt result >>= next) returns stops db := by
  cases result with
  | ok value => exact hok value rfl
  | error message => exact herror message rfl

/-- The database with the tables of before and the sequences of now. -/
def Database.rolledBack (before db : Database) : Database :=
  { db with tables := before.tables, forum := before.forum }

/-- The rows of every file are in the tables after those of before. -/
structure Imported (server : Server) (dir : DataDir) (db db' : Database) : Prop where
  users : (usersTable server).copyFrom dir.users db.tables.users = .ok db'.tables.users
  tags : (tagsTable server).copyFrom dir.tags db.forum.tags = .ok db'.forum.tags
  posts : (postsTable server).copyFrom dir.posts db.tables.posts = .ok db'.tables.posts
  comments : (commentsTable server).copyFrom dir.comments db.forum.comments =
    .ok db'.forum.comments
  postTags : (postTagsTable server).copyFrom dir.postTags db.forum.postTags =
    .ok db'.forum.postTags

theorem Imported.keyed {dir : DataDir} (hrows : Imported server dir db db') (h : db.Keyed) :
    db'.Keyed where
  userIds := copyFrom_nodup hrows.users List.mem_cons_self h.userIds
  emails := copyFrom_nodup hrows.users (List.mem_cons_of_mem _ List.mem_cons_self) h.emails
  users := copyFrom_all hrows.users userOf_ok h.users
  tagIds := copyFrom_nodup hrows.tags List.mem_cons_self h.tagIds
  tagNames := copyFrom_nodup hrows.tags (List.mem_cons_of_mem _ List.mem_cons_self) h.tagNames
  tags := copyFrom_all hrows.tags tagOf_ok h.tags
  postIds := copyFrom_nodup hrows.posts List.mem_cons_self h.postIds
  posts := copyFrom_all hrows.posts postOf_ok h.posts
  commentIds := copyFrom_nodup hrows.comments List.mem_cons_self h.commentIds
  comments := copyFrom_all hrows.comments commentOf_ok h.comments
  postTagIds := copyFrom_nodup hrows.postTags List.mem_cons_self h.postTagIds
  pairs := copyFrom_nodup hrows.postTags (List.mem_cons_of_mem _ List.mem_cons_self) h.pairs

theorem importCommands_meets (dir : DataDir) : Meets (importCommands server dir db)
    (fun _ db' ↦ Imported server dir db db' ∧ (db.Ahead → db'.Ahead))
      (fun _ db' ↦ db.Ahead → (db.rolledBack db').Ahead) db := by
  unfold importCommands
  refine meets_attempt (fun users husers ↦ ?_) fun _ _ h ↦ h
  refine meets_attempt (fun tags htags ↦ ?_) fun _ _ h ↦ h
  refine meets_attempt (fun posts hposts ↦ ?_) fun _ _ h ↦ h
  refine meets_attempt (fun comments hcomments ↦ ?_) fun _ _ h ↦ h
  refine meets_attempt (fun postTags hpostTags ↦ ?_) fun _ _ h ↦ h
  -- A sequence that has been set stays ahead of the old rows, which are among the new.
  have huserIds := List.map_subset (·.id) (copyFrom_subset husers)
  have htagIds := List.map_subset (·.id) (copyFrom_subset htags)
  have hpostIds := List.map_subset (·.id) (copyFrom_subset hposts)
  have hcommentIds := List.map_subset (·.id) (copyFrom_subset hcomments)
  refine Meets.modify_bind (meets_attempt (fun nextUser hset ↦ ?_) fun _ _ h ↦ h)
  have hnextUser (h : db.Ahead) := setval_ahead h.users.nonneg hset
  refine Meets.modify_bind (meets_attempt (fun nextTag hset ↦ ?_) fun _ _ h ↦
    ⟨(hnextUser h).subset huserIds, h.tags, h.posts, h.comments, h.postTags⟩)
  have hnextTag (h : db.Ahead) := setval_ahead h.tags.nonneg hset
  refine Meets.modify_bind (meets_attempt (fun nextPost hset ↦ ?_) fun _ _ h ↦
    ⟨(hnextUser h).subset huserIds, (hnextTag h).subset htagIds, h.posts, h.comments, h.postTags⟩)
  have hnextPost (h : db.Ahead) := setval_ahead h.posts.nonneg hset
  refine Meets.modify_bind (meets_attempt (fun nextComment hset ↦ ?_) fun _ _ h ↦
    ⟨(hnextUser h).subset huserIds, (hnextTag h).subset htagIds, (hnextPost h).subset hpostIds,
      h.comments, h.postTags⟩)
  have hnextComment (h : db.Ahead) := setval_ahead h.comments.nonneg hset
  refine Meets.modify_bind (meets_attempt (fun nextPostTag hset ↦ ?_) fun _ _ h ↦
    ⟨(hnextUser h).subset huserIds, (hnextTag h).subset htagIds, (hnextPost h).subset hpostIds,
      (hnextComment h).subset hcommentIds, h.postTags⟩)
  exact Meets.of_ok rfl ⟨⟨husers, htags, hposts, hcomments, hpostTags⟩, fun h ↦
    ⟨hnextUser h, hnextTag h, hnextPost h, hnextComment h, setval_ahead h.postTags.nonneg hset⟩⟩

/-- An import adds the rows of the files, or it fails and no row has changed. -/
theorem importSql_meets (dir : DataDir) : Meets (importSql server dir)
    (fun _ db' ↦ Imported server dir db db' ∧ (db.Ahead → db'.Ahead))
    (fun _ db' ↦ (db'.tables = db.tables ∧ db'.forum = db.forum) ∧ (db.Ahead → db'.Ahead)) db := by
  refine Meets.catching (importCommands_meets dir) fun message db' hback ↦ ?_
  exact Meets.modify_bind (Meets.throw ⟨⟨rfl, rfl⟩, hback⟩)

theorem fresh_keyed : Database.fresh.Keyed :=
  ⟨List.nodup_nil, List.nodup_nil, nofun, List.nodup_nil, List.nodup_nil, nofun, List.nodup_nil,
    nofun, List.nodup_nil, nofun, List.nodup_nil, List.nodup_nil⟩

theorem fresh_ahead : Database.fresh.Ahead :=
  ⟨⟨by decide, nofun⟩, ⟨by decide, nofun⟩, ⟨by decide, nofun⟩, ⟨by decide, nofun⟩,
    ⟨by decide, nofun⟩⟩

/-- A server in the time zone UTC. -/
def utcServer : Server where
  int4 text :=
    if text ≠ [] ∧ text.all Char.isDigit ∧ Nat.ofDigitChars 10 text 0 ≤ 2147483647 then
      some (Nat.ofDigitChars 10 text 0)
    else
      none
  timestamptz
    | none => some ""
    | some text => some (String.ofList text ++ "+00")

/-- A directory with all five files. -/
def fiveFiles : DataDir where
  users := some ("1,ann@example.org,2025-01-01 00:00:00\n" ++
    "2,bob@example.org,2025-01-02 00:00:00\n").toList
  posts := some ("1,Oak,\"Oak, elm\",2025-01-03 00:00:00,published,1\n" ++
    "2,Ash,,2025-01-04 00:00:00,draft,\n").toList
  tags := some "1,Git\n2,IoT\n".toList
  comments := some "1,Yes.,2025-01-05 00:00:00,2,1\n".toList
  postTags := some "1,1,2\n".toList

/-- What they hold. -/
def fiveTables : Database where
  tables :=
    ⟨[⟨1, "ann@example.org", "2025-01-01 00:00:00+00"⟩,
      ⟨2, "bob@example.org", "2025-01-02 00:00:00+00"⟩],
      [⟨1, "Oak", some "Oak, elm", "2025-01-03 00:00:00+00", "published", some 1⟩,
      ⟨2, "Ash", none, "2025-01-04 00:00:00+00", "draft", none⟩]⟩
  forum :=
    ⟨[⟨1, "Yes.", "2025-01-05 00:00:00+00", some 2, 1⟩], [⟨1, "Git".toList⟩, ⟨2, "IoT".toList⟩],
      [⟨1, 1, 2⟩]⟩
  next := ⟨3, 3, 3, 2, 2⟩

theorem importSql_fiveFiles : importSql utcServer fiveFiles .fresh = .ok () fiveTables := rfl

/-- Whatever is in the files and whichever of them are there, the import keeps the keys and checks
of the schema and the sequences ahead of the numbers in use. If it fails, no row has changed. -/
theorem importSql_keeps (server : Server) (dir : DataDir) (h : db.Keyed) (hahead : db.Ahead) :
    Meets (importSql server dir) (fun _ db' ↦ db'.Keyed ∧ db'.Ahead)
      (fun _ db' ↦ db'.tables = db.tables ∧ db'.forum = db.forum ∧ db'.Ahead) db :=
  (importSql_meets dir).mono (fun _ _ hdone ↦ ⟨hdone.1.keyed h, hdone.2 hahead⟩)
    fun _ _ hback ↦ ⟨hback.1.1, hback.1.2, hback.2 hahead⟩

theorem importSql_keeps_fiveFiles :
    Meets (importSql utcServer fiveFiles) (fun _ db' ↦ db'.Keyed ∧ db'.Ahead)
      (fun _ db' ↦ db'.tables = Database.fresh.tables ∧ db'.forum = Database.fresh.forum ∧
        db'.Ahead) .fresh :=
  importSql_keeps utcServer fiveFiles fresh_keyed fresh_ahead

/-- No row is missing in the other database. -/
structure Database.Within (db db' : Database) : Prop where
  users : db.tables.users ⊆ db'.tables.users
  tags : db.forum.tags ⊆ db'.forum.tags
  posts : db.tables.posts ⊆ db'.tables.posts
  comments : db.forum.comments ⊆ db'.forum.comments
  postTags : db.forum.postTags ⊆ db'.forum.postTags

/-- A file whose rows are in the table already cannot be copied, unless it has none. -/
theorem copyFrom_again {ρ : Type} {spec : TableSpec ρ} {rows rows' later later' : List ρ}
    {file : Option (List Char)} {constraint : String × (ρ → ρ → Bool)}
    (hmem : constraint ∈ spec.unique) (hself : ∀ row, constraint.2 row row = true)
    (h : spec.copyFrom file rows = .ok rows') (hkept : rows' ⊆ later)
    (hagain : spec.copyFrom file later = .ok later') : rows' = rows := by
  obtain ⟨added, hadded, rfl, -⟩ := copyFrom_ok h
  obtain ⟨added', hadded', -, hcopied⟩ := copyFrom_ok hagain
  cases hadded.symm.trans hadded'
  cases added with
  | nil => exact List.append_nil rows
  | cons row added =>
    have hold : row ∈ later := hkept (List.mem_append_right _ List.mem_cons_self)
    have hclash := hcopied.fresh constraint hmem row List.mem_cons_self row hold
    rw [hself] at hclash
    cases hclash

/-- Files whose rows are still there are not imported again. The second import fails and changes no
row, whatever else has been added in between. -/
theorem importSql_twice {dir : DataDir} {db later : Database}
    (h : importSql server dir db = .ok () db')
    (hadded : db'.tables ≠ db.tables ∨ db'.forum ≠ db.forum) (hkept : db'.Within later) :
    ∃ message db'', importSql server dir later = .error message db'' ∧
      db''.tables = later.tables ∧ db''.forum = later.forum := by
  have hfirst := ((importSql_meets dir).ok h).1
  cases hrun : importSql server dir later with
  | error message db'' =>
    exact ⟨message, db'', rfl, ((importSql_meets dir).error hrun).1⟩
  | ok done db'' =>
    have hsecond := ((importSql_meets dir).ok hrun).1
    have huniqueOn {ρ κ : Type} [DecidableEq κ] (constraint : String) (key : ρ → κ) (row : ρ) :
        (uniqueOn constraint key).2 row row = true :=
      decide_eq_true rfl
    have husers := copyFrom_again List.mem_cons_self (huniqueOn _ _) hfirst.users hkept.users
      hsecond.users
    have htags := copyFrom_again List.mem_cons_self (huniqueOn _ _) hfirst.tags hkept.tags
      hsecond.tags
    have hposts := copyFrom_again List.mem_cons_self (huniqueOn _ _) hfirst.posts hkept.posts
      hsecond.posts
    have hcomments := copyFrom_again List.mem_cons_self (huniqueOn _ _) hfirst.comments
      hkept.comments hsecond.comments
    have hpostTags := copyFrom_again List.mem_cons_self (huniqueOn _ _) hfirst.postTags
      hkept.postTags hsecond.postTags
    rcases hadded with htables | hforum
    · exact absurd (congrArg₂ Tables.mk husers hposts) htables
    · exact absurd (congr (congrArg₂ Forum.mk hcomments htags) hpostTags) hforum

/-- The five files again, after another tag was added. -/
theorem importSql_twice_fiveFiles :
    let later := { fiveTables with
      forum.tags := fiveTables.forum.tags ++ [⟨3, "Art".toList⟩], next.tags := 4 }
    importSql utcServer fiveFiles .fresh = .ok () fiveTables ∧
      ∃ message db'', importSql utcServer fiveFiles later = .error message db'' ∧
        db''.tables = later.tables ∧ db''.forum = later.forum :=
  ⟨importSql_fiveFiles, importSql_twice importSql_fiveFiles (Or.inl (by decide)) ⟨fun _ ↦ id,
    fun _ ↦ List.mem_append_left _, fun _ ↦ id, fun _ ↦ id, fun _ ↦ id⟩⟩

end AnyFiles

end StudStuff.Dbms
