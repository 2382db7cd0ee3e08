import StudStuff.Dbms.Admission
import StudStuff.Dbms.Dataset
import StudStuff.Dbms.Import

/-!
# Importing what was generated

The files of sound data go through the writer of Python's `csv` module, `\COPY` and the input
functions of the columns. If the texts fit into their columns, an empty database then holds the
rows that were generated, and the references that the import does not check lead to rows that exist
(`importSql_restores`). Only an empty description becomes null.
-/

set_option autoImplicit false
set_option relaxedAutoImplicit false

namespace StudStuff.Dbms

open Lib Lib.Csv

/-! ### What the database is to hold -/

section Restored

variable (server : Server)

/-- How a time is shown after it was stored. -/
def Server.shown (date : String) : String :=
  (server.timestamptz (some date.toList)).getD ""

def UserRow.stored (user : UserRow) : UserRow := { user with date := server.shown user.date }

def PostRow.stored (post : PostRow) : PostRow :=
  { post with
    description := post.description.filter (· ≠ "")
    date := server.shown post.date }

def CommentRow.stored (comment : CommentRow) : CommentRow :=
  { comment with date := server.shown comment.date }

/-- The database with the data and the next numbers. -/
def Dataset.stored (data : Dataset) : Database where
  tables := ⟨data.users.map (·.stored server), data.posts.map (·.stored server)⟩
  forum := ⟨data.comments.map (·.stored server), data.tags, data.postTags⟩
  next := ⟨data.users.length + 1, data.tags.length + 1, data.posts.length + 1,
    data.comments.length + 1, data.postTags.length + 1⟩

def Files.dir (files : Files) : DataDir :=
  ⟨some files.users, some files.posts, some files.tags, some files.comments, some files.postTags⟩

/-- The server reads numbers as they are written, and the times that Faker gives. -/
structure Server.Reads (source : Source) : Prop where
  int4 : ∀ number : Int, 0 ≤ number → number ≤ 2147483647 →
    server.int4 (str number) = some number
  timestamptz : ∀ date, source.Dates date → (server.timestamptz (some date.toList)).isSome

/-- The numbers of the rows are in the range of the type `INT`. -/
structure Config.InRange (config : Config) : Prop where
  users : config.numUsers ≤ 2147483647
  posts : config.numPosts ≤ 2147483647
  tags : config.numTags ≤ 2147483647
  comments : config.numComments < 2147483647
  postTags : config.numPostTags ≤ 2147483647

/-- The texts fit into their columns, and have no backslash, which may end a file for `\COPY`. -/
structure Dataset.Fits (data : Dataset) : Prop where
  users : ∀ user ∈ data.users, user.Fits ∧ '\\' ∉ user.email.toList
  tags : ∀ tag ∈ data.tags, tag.Fits ∧ '\\' ∉ tag.name
  posts : ∀ post ∈ data.posts, post.Fits ∧ '\\' ∉ post.title.toList ∧
    ∀ text ∈ post.description, '\\' ∉ text.toList
  comments : ∀ comment ∈ data.comments, comment.Fits ∧ '\\' ∉ comment.content.toList

/-- All constraints of `schema.sql`. -/
structure Database.Valid (db : Database) : Prop extends db.Keyed where
  tables : db.tables.Valid
  commentAuthors : ∀ comment ∈ db.forum.comments, ∀ author ∈ comment.authorId,
    ∃ user ∈ db.tables.users, user.id = author
  commentPosts : ∀ comment ∈ db.forum.comments, ∃ post ∈ db.tables.posts, post.id = comment.postId
  linkPosts : ∀ link ∈ db.forum.postTags, ∃ post ∈ db.tables.posts, post.id = link.postId
  linkTags : db.forum.TagsExist

end Restored

/-! ### Files of rows -/

section FilesOfRows

/-- A file without backslashes is sent as a whole. -/
theorem sentLines_eq {text : List Char} (h : '\\' ∉ text) (atLineStart : Bool) :
    sentLines atLineStart text = text := by
  induction text generalizing atLineStart with
  | nil => rfl
  | cons ch text ih =>
    rw [List.mem_cons, not_or] at h
    rw [sentLines, if_neg fun hmarker ↦ h.1 hmarker.2.1.symm, ih h.2]

variable {ρ : Type} {spec : TableSpec ρ}

theorem foldlM_insert {lines : List (List Value)} {rows added : List ρ}
    (hrows : lines.mapM spec.rowOf = .ok added)
    (hunique : ∀ constraint ∈ spec.unique,
      (rows ++ added).Pairwise fun other row ↦ constraint.2 row other = false) :
    lines.foldlM spec.insert rows = .ok (rows ++ added) := by
  induction lines generalizing rows added with
  | nil =>
    rw [List.mapM_nil] at hrows
    cases hrows
    rw [List.append_nil]
    rfl
  | cons line lines ih =>
    rw [List.mapM_cons] at hrows
    obtain ⟨row, hrow, hrows⟩ := exists_of_except_bind hrows
    obtain ⟨rest, hrest, hrows⟩ := exists_of_except_bind hrows
    cases hrows
    have hnone : spec.unique.find? (fun constraint ↦ rows.any (constraint.2 row)) = none := by
      refine List.find?_eq_none.mpr fun constraint hmem hany ↦ ?_
      obtain ⟨other, hother, hclash⟩ := List.any_eq_true.mp hany
      have hfree := (List.pairwise_append.mp (hunique constraint hmem)).2.2 other hother row
        List.mem_cons_self
      rw [hclash] at hfree
      cases hfree
    have hinsert : spec.insert rows line = .ok (rows ++ [row]) := by
      simp only [TableSpec.insert, hrow, bind, Except.bind, hnone]
      rfl
    have hall : rows ++ row :: rest = rows ++ [row] ++ rest := by
      rw [List.append_assoc, List.singleton_append]
    rw [hall] at hunique ⊢
    rw [List.foldlM_cons, hinsert]
    exact ih hrest hunique

variable {rows : List ρ} {cells : ρ → List (List Char)} {stored : ρ → ρ}

theorem mapM_rowOf
    (hrow : ∀ row ∈ rows, spec.rowOf ((cells row).map nullEmpty) = .ok (stored row)) :
    ((rows.map cells).map fun row ↦ row.map nullEmpty).mapM spec.rowOf =
      .ok (rows.map stored) := by
  induction rows with
  | nil => rfl
  | cons row rows ih =>
    obtain ⟨hfirst, hrest⟩ := List.forall_mem_cons.mp hrow
    simp only [List.map_cons, List.mapM_cons, hfirst, ih hrest]
    rfl

/-- The file of some rows is copied into an empty table. -/
theorem copyFrom_writeRows
    (hcells : ∀ row ∈ rows, 2 ≤ (cells row).length ∧ ∀ cell ∈ cells row, '\\' ∉ cell)
    (hrow : ∀ row ∈ rows, spec.rowOf ((cells row).map nullEmpty) = .ok (stored row))
    (hunique : ∀ constraint ∈ spec.unique,
      (rows.map stored).Pairwise fun other row ↦ constraint.2 row other = false) :
    spec.copyFrom (some (writeRows (rows.map cells))) [] = .ok (rows.map stored) := by
  have hbackslash : '\\' ∉ writeRows (rows.map cells) := fun hmem ↦ by
    rcases mem_of_mem_writeRows hmem with hspecial | ⟨texts, htexts, text, htext, hch⟩
    · cases hspecial
    · obtain ⟨row, hrow, rfl⟩ := List.mem_map.mp htexts
      exact (hcells row hrow).2 text htext hch
  have hlength : ∀ texts ∈ rows.map cells, 2 ≤ texts.length := fun texts htexts ↦ by
    obtain ⟨row, hrow, rfl⟩ := List.mem_map.mp htexts
    exact (hcells row hrow).1
  simp only [TableSpec.copyFrom, sentLines_eq hbackslash, copyRows_writeRows hlength]
  exact foldlM_insert (mapM_rowOf hrow) hunique

/-- The next number after rows that are numbered from one. -/
theorem setval_rangeFromOne {ids : List Int} {count : Int} (hids : ids = rangeFromOne count)
    (hrange : count ≤ 2147483647) : setval ids 1 = .ok (ids.length + 1) := by
  subst hids
  rw [length_rangeFromOne, setval]
  by_cases hpos : 1 ≤ count
  · have hlargest : (rangeFromOne count).max? = some count := by
      refine List.max?_eq_some_iff.mpr ⟨mem_rangeFromOne.mpr ⟨hpos, le_rfl⟩, fun number hmem ↦ ?_⟩
      exact (mem_rangeFromOne.mp hmem).2
    rw [hlargest, Int.toNat_of_nonneg (by omega)]
    exact if_pos ⟨hpos, hrange⟩
  · have hempty : rangeFromOne count = [] :=
      List.eq_nil_iff_forall_not_mem.mpr fun number hmem ↦ by
        have hbounds := mem_rangeFromOne.mp hmem
        omega
    have hzero : count.toNat = 0 := by omega
    rw [hempty, hzero]
    rfl

end FilesOfRows

/-! ### Values -/

section Values

variable {server : Server} {source : Source} {number : Int} {text : String}

theorem str_ne_nil (number : Int) : str number ≠ [] := by
  cases number with
  | ofNat number => exact Nat.toDigits_ne_nil
  | negSucc number => exact List.cons_ne_nil _ _

theorem nullEmpty_of_ne_nil {text : List Char} (h : text ≠ []) : nullEmpty text = some text :=
  if_neg h

theorem integer_str (hreads : server.Reads source) (hnonneg : 0 ≤ number)
    (hrange : number ≤ 2147483647) :
    server.integer (nullEmpty (str number)) = .ok (some number) := by
  rw [nullEmpty_of_ne_nil (str_ne_nil number), Server.integer, hreads.int4 number hnonneg hrange]

theorem integer_optional (hreads : server.Reads source) {reference : Option Int} {count : Int}
    (href : ∀ number ∈ reference, number ∈ rangeFromOne count) (hrange : count ≤ 2147483647) :
    server.integer (nullEmpty (optionalCell str reference)) = .ok reference := by
  cases reference with
  | none => rfl
  | some number =>
    have hbounds := mem_rangeFromOne.mp (href number rfl)
    exact integer_str hreads (by omega) (by omega)

theorem date_shown (hreads : server.Reads source) {date : String} (h : source.Dates date) :
    server.date (nullEmpty date.toList) = .ok (server.shown date) := by
  have hne : date.toList ≠ [] := by
    obtain ⟨startDate, drawn, rfl⟩ := h
    rw [DateTime.strftime, String.toList_ofList]
    exact List.append_ne_nil_of_left_ne_nil Nat.toDigits_ne_nil _
  obtain ⟨shown, hshown⟩ := Option.isSome_iff_exists.mp (hreads.timestamptz date h)
  rw [nullEmpty_of_ne_nil hne, Server.date, Server.shown, hshown]
  rfl

theorem toList_ne_nil_of_notBlank (h : notBlank text = true) : text.toList ≠ [] := by
  obtain ⟨ch, hmem, -⟩ := List.any_eq_true.mp h
  exact List.ne_nil_of_mem hmem

theorem varcharValue_text {limit : ℕ} (hlength : text.length ≤ limit) (hne : text.toList ≠ []) :
    varcharValue limit (nullEmpty text.toList) = .ok (some text) := by
  rw [nullEmpty_of_ne_nil hne, varcharValue, Option.map_some, String.ofList_toList]
  have hfits : varchar limit text = .ok text := if_pos hlength
  simp only [Option.mapM_some, hfits]
  rfl

/-- An empty description is written like none. -/
theorem varcharValue_optional {limit : ℕ} {description : Option String}
    (h : ∀ text ∈ description, text.length ≤ limit) :
    varcharValue limit (nullEmpty (optionalCell String.toList description)) =
      .ok (description.filter (· ≠ "")) := by
  cases description with
  | none => rfl
  | some text =>
    by_cases hempty : text = ""
    · subst hempty
      rfl
    · have hne : text.toList ≠ [] := mt String.toList_eq_nil_iff.mp hempty
      rw [optionalCell, varcharValue_text (h text rfl) hne]
      have hkept : (some text).filter (· ≠ "") = some text :=
        Option.filter_eq_some_iff.mpr ⟨rfl, decide_eq_true hempty⟩
      rw [hkept]

end Values

/-! ### Rows -/

section StoredRows

variable {server : Server} {source : Source} {config : Config}

theorem userOf_cells (hreads : server.Reads source) {user : UserRow} {count : Int}
    (hid : user.id ∈ rangeFromOne count) (hrange : count ≤ 2147483647)
    (hdate : source.Dates user.date) (hfits : user.Fits) :
    userOf server (user.cells.map nullEmpty) = .ok (user.stored server) := by
  have hbounds := mem_rangeFromOne.mp hid
  have hne := toList_ne_nil_of_notBlank hfits.2
  simp only [UserRow.cells, List.map_cons, List.map_nil, userOf, date_shown hreads hdate,
    integer_str hreads (show 0 ≤ user.id by omega) (by omega), varcharValue_text hfits.1 hne,
    notNull, bind, Except.bind, hfits.2]
  rfl

theorem tagOf_cells (hreads : server.Reads source) {tag : TagRow} {count : Int}
    (hid : tag.id ∈ rangeFromOne count) (hrange : count ≤ 2147483647) (hfits : tag.Fits) :
    tagOf server (tag.cells.map nullEmpty) = .ok tag := by
  have hbounds := mem_rangeFromOne.mp hid
  have hname : varcharValue 255 (nullEmpty tag.name) = .ok (some (String.ofList tag.name)) := by
    have hne := toList_ne_nil_of_notBlank hfits.2
    have htext := varcharValue_text (String.length_ofList.trans_le hfits.1) hne
    rwa [String.toList_ofList] at htext
  simp only [TagRow.cells, List.map_cons, List.map_nil, tagOf, hname,
    integer_str hreads (show 0 ≤ tag.id by omega) (by omega), notNull, bind, Except.bind, hfits.2,
    String.toList_ofList]
  rfl

theorem status_text {status : String} (h : status ∈ ["draft", "published", "archived"]) :
    status.length ≤ 20 ∧ status.toList ≠ [] ∧ '\\' ∉ status.toList := by
  revert status
  decide

theorem postOf_cells (hreads : server.Reads source) {post : PostRow} {count : Int}
    (hid : post.id ∈ rangeFromOne count) (hrange : count ≤ 2147483647)
    (husers : config.numUsers ≤ 2147483647) (hsound : post.Sound source config)
    (hfits : post.Fits) :
    postOf server (post.cells.map nullEmpty) = .ok (post.stored server) := by
  obtain ⟨htitle, hblank, hdescription, hstatus⟩ := hfits
  have hbounds := mem_rangeFromOne.mp hid
  have hshort := status_text hstatus
  simp only [PostRow.cells, List.map_cons, List.map_nil, postOf, date_shown hreads hsound.date,
    integer_str hreads (show 0 ≤ post.id by omega) (by omega),
    varcharValue_text htitle (toList_ne_nil_of_notBlank hblank),
    varcharValue_optional hdescription, varcharValue_text hshort.1 hshort.2.1,
    integer_optional hreads hsound.author husers, notNull, bind, Except.bind, hblank, hstatus]
  rfl

theorem commentOf_cells (hreads : server.Reads source) {comment : CommentRow} {count : Int}
    (hid : comment.id ∈ rangeFromOne count) (hrange : count ≤ 2147483647)
    (husers : config.numUsers ≤ 2147483647) (hposts : config.numPosts ≤ 2147483647)
    (hsound : comment.Sound source config) (hfits : comment.Fits) :
    commentOf server (comment.cells.map nullEmpty) = .ok (comment.stored server) := by
  have hbounds := mem_rangeFromOne.mp hid
  have hpost := mem_rangeFromOne.mp hsound.post
  have hne := toList_ne_nil_of_notBlank hfits.2
  simp only [CommentRow.cells, List.map_cons, List.map_nil, commentOf,
    date_shown hreads hsound.date, integer_str hreads (show 0 ≤ comment.id by omega) (by omega),
    integer_str hreads (show 0 ≤ comment.postId by omega) (by omega),
    varcharValue_text hfits.1 hne, integer_optional hreads hsound.author husers, notNull, bind,
    Except.bind, hfits.2]
  rfl

theorem postTagOf_cells (hreads : server.Reads source) {link : PostTagRow} {count : Int}
    (hid : link.id ∈ rangeFromOne count) (hrange : count ≤ 2147483647)
    (hpost : link.postId ∈ rangeFromOne config.numPosts) (hposts : config.numPosts ≤ 2147483647)
    (htag : link.tagId ∈ rangeFromOne config.numTags) (htags : config.numTags ≤ 2147483647) :
    postTagOf server (link.cells.map nullEmpty) = .ok link := by
  have hbounds := mem_rangeFromOne.mp hid
  have hpost := mem_rangeFromOne.mp hpost
  have htag := mem_rangeFromOne.mp htag
  simp only [PostTagRow.cells, List.map_cons, List.map_nil, postTagOf,
    integer_str hreads (show 0 ≤ link.id by omega) (by omega),
    integer_str hreads (show 0 ≤ link.postId by omega) (by omega),
    integer_str hreads (show 0 ≤ link.tagId by omega) (by omega), notNull, bind, Except.bind]
  rfl

end StoredRows

/-! ### The import -/

section Restore

variable {server : Server} {source : Source} {config : Config} {data : Dataset}

theorem backslash_str (number : Int) : '\\' ∉ str number :=
  not_mem_of_plain (isPlain_str number) rfl

theorem backslash_optional (number : Option Int) : '\\' ∉ optionalCell str number :=
  not_mem_of_plain (isPlain_optionalCell number) rfl

theorem backslash_date {date : String} (h : source.Dates date) : '\\' ∉ date.toList :=
  not_mem_of_plain h.isPlain rfl

theorem Config.InRange.allComments (hrange : config.InRange) :
    max config.numComments 0 + 1 ≤ 2147483647 := by
  have hcomments := hrange.comments
  omega

theorem Dataset.Sound.links_inRange (hsound : data.Sound source config)
    (hrange : config.InRange) : (data.postTags.length : Int) ≤ 2147483647 := by
  have hcount := hsound.count
  have hpostTags := hrange.postTags
  omega

theorem nodup_of_numbered {ids : List Int} {count : Int} (h : ids = rangeFromOne count) :
    ids.Nodup :=
  h ▸ nodup_rangeFromOne

theorem mem_of_numbered {α : Type} {id : α → Int} {rows : List α} {count : Int} {row : α}
    (h : rows.map id = rangeFromOne count) (hmem : row ∈ rows) : id row ∈ rangeFromOne count :=
  h ▸ List.mem_map_of_mem hmem

theorem copyFrom_users (hsound : data.Sound source config) (hreads : server.Reads source)
    (hrange : config.InRange) (hfits : data.Fits) :
    (usersTable server).copyFrom (some data.files.users) [] =
      .ok (data.users.map (·.stored server)) := by
  refine copyFrom_writeRows (fun user hmem ↦ ⟨Nat.le_add_left 2 _, ?_⟩) (fun user hmem ↦ ?_) ?_
  · have hdate := backslash_date (hsound.users user hmem).2
    simp only [UserRow.cells, List.forall_mem_cons]
    exact ⟨backslash_str _, (hfits.users user hmem).2, hdate, List.forall_mem_nil _⟩
  · have hid := mem_of_numbered hsound.userIds hmem
    exact userOf_cells hreads hid hrange.users (hsound.users user hmem).2 (hfits.users user hmem).1
  · simp only [usersTable, List.forall_mem_cons, unique_uniqueOn, List.map_map]
    exact ⟨nodup_of_numbered hsound.userIds, hsound.emails, List.forall_mem_nil _⟩

theorem copyFrom_tags (hsound : data.Sound source config) (hreads : server.Reads source)
    (hrange : config.InRange) (hfits : data.Fits) :
    (tagsTable server).copyFrom (some data.files.tags) [] = .ok data.tags := by
  rw [← List.map_id data.tags]
  refine copyFrom_writeRows (fun tag hmem ↦ ⟨Nat.le_add_left 2 _, ?_⟩) (fun tag hmem ↦ ?_) ?_
  · simp only [TagRow.cells, List.forall_mem_cons]
    exact ⟨backslash_str _, (hfits.tags tag hmem).2, List.forall_mem_nil _⟩
  · have hid := mem_of_numbered hsound.tagIds hmem
    exact tagOf_cells hreads hid hrange.tags (hfits.tags tag hmem).1
  · rw [List.map_id]
    simp only [tagsTable, List.forall_mem_cons, unique_uniqueOn]
    exact ⟨nodup_of_numbered hsound.tagIds, hsound.tagNames, List.forall_mem_nil _⟩

theorem copyFrom_posts (hsound : data.Sound source config) (hreads : server.Reads source)
    (hrange : config.InRange) (hfits : data.Fits) :
    (postsTable server).copyFrom (some data.files.posts) [] =
      .ok (data.posts.map (·.stored server)) := by
  refine copyFrom_writeRows (fun post hmem ↦ ⟨Nat.le_add_left 2 _, ?_⟩) (fun post hmem ↦ ?_) ?_
  · obtain ⟨hpost, htitle, hdescription⟩ := hfits.posts post hmem
    have hstatus := (status_text hpost.2.2.2).2.2
    have htext : '\\' ∉ optionalCell String.toList post.description := by
      cases hnone : post.description with
      | none => exact nofun
      | some text => exact hdescription text hnone
    simp only [PostRow.cells, List.forall_mem_cons]
    exact ⟨backslash_str _, htitle, htext, backslash_date (hsound.posts post hmem).date, hstatus,
      backslash_optional _, List.forall_mem_nil _⟩
  · have hid := mem_of_numbered hsound.postIds hmem
    exact postOf_cells hreads hid hrange.posts hrange.users (hsound.posts post hmem)
      (hfits.posts post hmem).1
  · simp only [postsTable, List.forall_mem_cons, unique_uniqueOn, List.map_map]
    exact ⟨nodup_of_numbered hsound.postIds, List.forall_mem_nil _⟩

theorem copyFrom_comments (hsound : data.Sound source config) (hreads : server.Reads source)
    (hrange : config.InRange) (hfits : data.Fits) :
    (commentsTable server).copyFrom (some data.files.comments) [] =
      .ok (data.comments.map (·.stored server)) := by
  refine copyFrom_writeRows (fun comment hmem ↦ ⟨Nat.le_add_left 2 _, ?_⟩)
    (fun comment hmem ↦ ?_) ?_
  · simp only [CommentRow.cells, List.forall_mem_cons]
    exact ⟨backslash_str _, (hfits.comments comment hmem).2,
      backslash_date (hsound.comments comment hmem).date, backslash_optional _, backslash_str _,
      List.forall_mem_nil _⟩
  · have hid := mem_of_numbered hsound.commentIds hmem
    exact commentOf_cells hreads hid hrange.allComments hrange.users hrange.posts
      (hsound.comments comment hmem) (hfits.comments comment hmem).1
  · simp only [commentsTable, List.forall_mem_cons, unique_uniqueOn, List.map_map]
    exact ⟨nodup_of_numbered hsound.commentIds, List.forall_mem_nil _⟩

theorem copyFrom_postTags (hsound : data.Sound source config) (hreads : server.Reads source)
    (hrange : config.InRange) :
    (postTagsTable server).copyFrom (some data.files.postTags) [] = .ok data.postTags := by
  rw [← List.map_id data.postTags]
  refine copyFrom_writeRows (fun link hmem ↦ ⟨Nat.le_add_left 2 _, ?_⟩) (fun link hmem ↦ ?_) ?_
  · simp only [PostTagRow.cells, List.forall_mem_cons]
    exact ⟨backslash_str _, backslash_str _, backslash_str _, List.forall_mem_nil _⟩
  · have hid := mem_of_numbered hsound.postTagIds hmem
    obtain ⟨hpost, htag⟩ := hsound.postTags link hmem
    exact postTagOf_cells hreads hid (hsound.links_inRange hrange) hpost hrange.posts htag
      hrange.tags
  · rw [List.map_id]
    simp only [postTagsTable, List.forall_mem_cons, unique_uniqueOn]
    exact ⟨nodup_of_numbered hsound.postTagIds, hsound.pairs, List.forall_mem_nil _⟩

theorem attempt_ok {α : Type} {result : Except String α} {value : α} {db : Database}
    (h : result = .ok value) : attempt result db = .ok value db := by
  rw [h]
  rfl

/-- The commands one by one, when none of them fails. -/
theorem importSql_ok {dir : DataDir} {db db' : Database}
    (hrows : Imported server dir db db')
    (husers : setval (db'.tables.users.map (·.id)) db.next.users = .ok db'.next.users)
    (htags : setval (db'.forum.tags.map (·.id)) db.next.tags = .ok db'.next.tags)
    (hposts : setval (db'.tables.posts.map (·.id)) db.next.posts = .ok db'.next.posts)
    (hcomments : setval (db'.forum.comments.map (·.id)) db.next.comments = .ok db'.next.comments)
    (hpostTags : setval (db'.forum.postTags.map (·.id)) db.next.postTags =
      .ok db'.next.postTags) : importSql server dir db = .ok () db' := by
  refine catching_ok ?_ _
  rw [importCommands, bind_ok (attempt_ok hrows.users), bind_ok (attempt_ok hrows.tags),
    bind_ok (attempt_ok hrows.posts), bind_ok (attempt_ok hrows.comments),
    bind_ok (attempt_ok hrows.postTags), bind_ok (modify_apply _ _), bind_ok (attempt_ok husers),
    bind_ok (modify_apply _ _), bind_ok (attempt_ok htags), bind_ok (modify_apply _ _),
    bind_ok (attempt_ok hposts), bind_ok (modify_apply _ _), bind_ok (attempt_ok hcomments),
    bind_ok (modify_apply _ _), bind_ok (attempt_ok hpostTags), modify_apply]

/-- Every row of the data is copied, and every sequence is set. -/
theorem importSql_generated (hsound : data.Sound source config) (hreads : server.Reads source)
    (hrange : config.InRange) (hfits : data.Fits) :
    importSql server data.files.dir .fresh = .ok () (data.stored server) := by
  have hnumbered {ρ : Type} {id : ρ → Int} {stored : ρ → ρ} {rows : List ρ} {count : Int}
      (hids : rows.map id = rangeFromOne count) (hstored : ∀ row, id (stored row) = id row)
      (hcount : count ≤ 2147483647) :
      setval ((rows.map stored).map id) 1 = .ok (rows.length + 1) := by
    have hkept : (rows.map stored).map id = rows.map id := by
      rw [List.map_map]
      exact List.map_congr_left fun row _ ↦ hstored row
    have hnext := setval_rangeFromOne (hkept.trans hids) hcount
    rwa [List.length_map, List.length_map] at hnext
  have hrows : Imported server data.files.dir .fresh (data.stored server) :=
    ⟨copyFrom_users hsound hreads hrange hfits, copyFrom_tags hsound hreads hrange hfits,
      copyFrom_posts hsound hreads hrange hfits, copyFrom_comments hsound hreads hrange hfits,
      copyFrom_postTags hsound hreads hrange⟩
  refine importSql_ok hrows (hnumbered hsound.userIds (fun _ ↦ rfl) hrange.users) ?_
    (hnumbered hsound.postIds (fun _ ↦ rfl) hrange.posts)
    (hnumbered hsound.commentIds (fun _ ↦ rfl) hrange.allComments) ?_
  · have hnext := setval_rangeFromOne hsound.tagIds hrange.tags
    rwa [List.length_map] at hnext
  · have hnext := setval_rangeFromOne hsound.postTagIds (hsound.links_inRange hrange)
    rwa [List.length_map] at hnext

theorem exists_user_stored (hsound : data.Sound source config) {author : Int}
    (hauthor : author ∈ rangeFromOne config.numUsers) :
    ∃ user ∈ (data.stored server).tables.users, user.id = author := by
  rw [← hsound.userIds] at hauthor
  obtain ⟨user, hmem, hid⟩ := List.mem_map.mp hauthor
  exact ⟨user.stored server, List.mem_map_of_mem hmem, hid⟩

theorem exists_post_stored (hsound : data.Sound source config) {postId : Int}
    (hpost : postId ∈ rangeFromOne config.numPosts) :
    ∃ post ∈ (data.stored server).tables.posts, post.id = postId := by
  rw [← hsound.postIds] at hpost
  obtain ⟨post, hmem, hid⟩ := List.mem_map.mp hpost
  exact ⟨post.stored server, List.mem_map_of_mem hmem, hid⟩

/-- The references lead to rows that exist. -/
theorem stored_valid (hsound : data.Sound source config) (hkeyed : (data.stored server).Keyed) :
    (data.stored server).Valid where
  toKeyed := hkeyed
  tables := by
    refine ⟨hkeyed.userIds, hkeyed.emails, hkeyed.users, hkeyed.postIds, hkeyed.posts,
      fun post hmem author hauthor ↦ ?_⟩
    obtain ⟨original, horiginal, rfl⟩ := List.mem_map.mp hmem
    exact exists_user_stored hsound ((hsound.posts original horiginal).author author hauthor)
  commentAuthors comment hmem author hauthor := by
    obtain ⟨original, horiginal, rfl⟩ := List.mem_map.mp hmem
    exact exists_user_stored hsound ((hsound.comments original horiginal).author author hauthor)
  commentPosts comment hmem := by
    obtain ⟨original, horiginal, rfl⟩ := List.mem_map.mp hmem
    exact exists_post_stored hsound (hsound.comments original horiginal).post
  linkPosts link hmem := exists_post_stored hsound (hsound.postTags link hmem).1
  linkTags link hmem := by
    have htag := (hsound.postTags link hmem).2
    rw [← hsound.tagIds] at htag
    exact List.mem_map.mp htag

theorem Database.Ahead.below {db : Database} (h : db.Ahead) :
    db.tables.Below db.next.users db.next.posts :=
  ⟨h.users.nonneg, h.posts.nonneg, fun _ hmem ↦ h.users.above _ (List.mem_map_of_mem hmem),
    fun _ hmem ↦ h.posts.above _ (List.mem_map_of_mem hmem)⟩

theorem utcServer_reads (source : Source) : utcServer.Reads source where
  int4 number hnonneg hrange := by
    obtain ⟨number, rfl⟩ := Int.eq_ofNat_of_zero_le hnonneg
    have hvalue : Nat.ofDigitChars 10 (str number) 0 = number := Nat.ofDigitChars_ten_toDigits
    have hdigits : (str number).all Char.isDigit = true :=
      List.all_eq_true.mpr (Decimal.isDigit_toDigits number)
    have hread : utcServer.int4 (str number) = some (Nat.ofDigitChars 10 (str number) 0 : ℕ) :=
      if_pos ⟨str_ne_nil _, hdigits, by omega⟩
    rw [hread, hvalue]
    rfl
  timestamptz date _ := rfl

def sampleData : Dataset where
  users := [⟨1, "ann@example.org", "2025-01-01 00:00:00"⟩]
  posts := [⟨1, "Oak", some "Oak.", "2025-01-01 00:00:00", "draft", none⟩]
  tags := [⟨1, "Art".toList⟩, ⟨2, "Git".toList⟩, ⟨3, "IoT".toList⟩, ⟨4, "Food".toList⟩,
    ⟨5, "Node.js".toList⟩]
  comments := [⟨1, "Oak.", "2025-01-01 00:00:00", none, 1⟩,
    ⟨2, MY_COMMENT, "2025-01-01 00:00:00", some 1, 1⟩]
  postTags := [⟨1, 1, 4⟩, ⟨2, 1, 2⟩]

theorem dates_sample : Source.twoEmails.Dates "2025-01-01 00:00:00" := ⟨"", 0, by decide⟩

theorem sampleData_sound : sampleData.Sound .twoEmails ⟨1, 1, 1, 5, 2⟩ where
  userIds := by decide
  emails := by decide
  users := List.forall_mem_singleton.mpr ⟨⟨0, rfl⟩, dates_sample⟩
  postIds := by decide
  posts := by
    refine List.forall_mem_singleton.mpr ⟨⟨3, "Oak.", ⟨0, rfl⟩, by decide⟩, ?_, dates_sample,
      by decide, nofun⟩
    rintro _ ⟨⟩
    exact ⟨1, 0, rfl⟩
  tagIds := by decide
  tagNames := by decide
  tags tag hmem := Or.inl (by revert tag; decide)
  commentIds := by decide
  comments := by
    refine List.forall_mem_cons.mpr ⟨⟨⟨"Oak.", Or.inl ⟨0, rfl⟩, by decide⟩, dates_sample, nofun,
      by decide⟩, List.forall_mem_singleton.mpr ⟨⟨MY_COMMENT, Or.inr rfl, by decide⟩, dates_sample,
      ?_, by decide⟩⟩
    rintro _ ⟨⟩
    decide
  mine := ⟨_, List.mem_cons_of_mem _ List.mem_cons_self, rfl, rfl, rfl⟩
  postTagIds := by decide
  pairs := by decide
  postTags := by decide
  count := by decide
  reached := by decide

theorem sampleData_fits : sampleData.Fits where
  users := by unfold UserRow.Fits; decide
  tags := by unfold TagRow.Fits; decide
  posts := by unfold PostRow.Fits; decide
  comments := by unfold CommentRow.Fits; decide

/-- For a server that reads numbers and times, numbers in the range of `INT` and texts that fit,
sound data can be imported into an empty database. Every row that was written is there, all
constraints of the schema hold, and the sequences are ahead, also in the sense of the transactions
that are to come. -/
theorem importSql_restores (hsound : data.Sound source config) (hreads : server.Reads source)
    (hrange : config.InRange) (hfits : data.Fits) :
    importSql server data.files.dir .fresh = .ok () (data.stored server) ∧
      (data.stored server).Valid ∧ (data.stored server).Ahead ∧
        (data.stored server).tables.Below (data.stored server).next.users
          (data.stored server).next.posts := by
  have hrun := importSql_generated hsound hreads hrange hfits
  obtain ⟨hrows, hahead⟩ := (importSql_meets data.files.dir).ok hrun
  have hahead := hahead fresh_ahead
  exact ⟨hrun, stored_valid hsound (hrows.keyed fresh_keyed), hahead, hahead.below⟩

theorem importSql_restores_sample :
    importSql utcServer sampleData.files.dir .fresh = .ok () (sampleData.stored utcServer) ∧
      (sampleData.stored utcServer).Valid ∧ (sampleData.stored utcServer).Ahead ∧
        (sampleData.stored utcServer).tables.Below (sampleData.stored utcServer).next.users
          (sampleData.stored utcServer).next.posts :=
  importSql_restores sampleData_sound (utcServer_reads _)
    ⟨by decide, by decide, by decide, by decide, by decide⟩ sampleData_fits

end Restore

end StudStuff.Dbms
