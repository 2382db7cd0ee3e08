import StudStuff.Dbms.GetUserTags

/-!
# Runs of the use cases

`main` runs one use case after another on one connection. Whatever fails on the way, every use case
returns, the tables keep to the constraints of the schema (`Tables.Valid`), and what was added to
them are the users and posts of the requests that were reported as successful, in this order
(`serve_spec`).
-/

set_option autoImplicit false
set_option relaxedAutoImplicit false

namespace StudStuff.Dbms

open Lib

/-! ### The schema -/

section Schema

variable {tables tables' : Tables}

/-- The constraints of `schema.sql` on the two tables. -/
structure Tables.Valid (tables : Tables) : Prop where
  userIds : (tables.users.map (·.id)).Nodup
  emails : (tables.users.map (·.email)).Nodup
  users : ∀ user ∈ tables.users, user.email.length ≤ 255 ∧ notBlank user.email = true
  postIds : (tables.posts.map (·.id)).Nodup
  posts : ∀ post ∈ tables.posts, post.title.length ≤ 255 ∧ notBlank post.title = true ∧
    (∀ text ∈ post.description, text.length ≤ 255) ∧
      post.status ∈ ["draft", "published", "archived"]
  authors : ∀ post ∈ tables.posts, ∀ author ∈ post.authorId,
    ∃ user ∈ tables.users, user.id = author

theorem varchar_length {limit : ℕ} {text stored : String} (h : varchar limit text = .ok stored) :
    stored.length ≤ limit := by
  unfold varchar at h
  split_ifs at h with hfits hspaces
  · cases h
    exact hfits
  · cases h
    rw [String.length_ofList, List.length_take]
    exact Nat.min_le_left _ _

theorem mapM_varchar_length {limit : ℕ} {description stored : Option String}
    (h : description.mapM (varchar limit) = .ok stored) : ∀ text ∈ stored, text.length ≤ limit := by
  rintro text rfl
  cases description with
  | none => cases h
  | some original =>
    cases htext : varchar limit original with
    | error what =>
      rw [Option.mapM_some, htext] at h
      cases h
    | ok text' =>
      rw [Option.mapM_some, htext] at h
      cases h
      exact varchar_length htext

/-- `INSERT INTO users` keeps the constraints. -/
theorem Tables.Valid.insertUser (h : tables.Valid) {id : Int} {date email : String}
    {result : Option UserRow} (hinsert : tables.insertUser id date email = .ok (result, tables')) :
    tables'.Valid := by
  obtain ⟨stored, hemail, hblank, ⟨-, rfl, -⟩ | ⟨-, rfl, hnew, hkey⟩⟩ := insertUser_eq_ok hinsert
  · exact h
  refine ⟨nodup_concat h.userIds hkey, nodup_concat h.emails fun user huser hsame ↦ hnew ?_,
    fun user hmem ↦ ?_, h.postIds, h.posts, fun post hpost author hauthor ↦ ?_⟩
  · exact List.mem_map.mpr ⟨user, huser, hsame⟩
  · rcases List.mem_append.mp hmem with hold | hnew
    · exact h.users user hold
    · rw [List.mem_singleton.mp hnew]
      exact ⟨varchar_length hemail, hblank⟩
  · obtain ⟨user, huser, hid⟩ := h.authors post hpost author hauthor
    exact ⟨user, List.mem_append_left _ huser, hid⟩

/-- `INSERT INTO posts` keeps the constraints. -/
theorem Tables.Valid.insertPost (h : tables.Valid) {id : Int} {date title status : String}
    {description : Option String} {authorId : Option Int} {row : PostRow}
    (hinsert : tables.insertPost id date title description status authorId = .ok (row, tables')) :
    tables'.Valid := by
  obtain ⟨title', description', status', htitle, hdescription, -, rfl, rfl, hlisted, hblank, hkey,
    hauthor⟩ := insertPost_eq_ok hinsert
  refine ⟨h.userIds, h.emails, h.users, nodup_concat h.postIds hkey, fun post hmem ↦ ?_,
    fun post hmem author hmem' ↦ ?_⟩
  · rcases List.mem_append.mp hmem with hold | hnew
    · exact h.posts post hold
    · rw [List.mem_singleton.mp hnew]
      exact ⟨varchar_length htitle, hblank, mapM_varchar_length hdescription, hlisted⟩
  · rcases List.mem_append.mp hmem with hold | hnew
    · exact h.authors post hold author hmem'
    · rw [List.mem_singleton.mp hnew] at hmem'
      exact hauthor author hmem'

end Schema

/-! ### One request -/

section Request

open UnitOfWork

variable {uow c : ℕ} {base w : World} {u : UnitOfWork} {view tables : Tables} {request : Request}

/-- What a transaction sees keeps to the constraints. -/
def Sees (uow c : ℕ) (base w : World) : Prop := ∃ view, view.Valid ∧ Active uow c base view w

theorem Sees.owned (h : Sees uow c base w) : Owned uow c base w := by
  obtain ⟨view, -, hactive⟩ := h
  exact hactive.owned

theorem throws_owned_of_sees {stop : Stop} (h : Throws (Sees uow c base) stop w) :
    Throws (Owned uow c base) stop w :=
  ⟨h.1, h.2.owned⟩

/-- A statement that keeps the constraints. -/
theorem Sees.execInsert {α : Type} {nextval : Connection → Connection}
    {statement : Connection → OpenWork → Except String (α × Tables)} (h : Sees uow c base w)
    (hnextval : ∀ connection, (nextval connection).tables = connection.tables ∧
      (nextval connection).isOpen = connection.isOpen ∧
        (nextval connection).work = connection.work)
    (hkeeps : ∀ connection transaction result view', transaction.view.Valid →
      statement connection transaction = .ok (result, view') → view'.Valid) :
    Meets (execInsert ⟨c, base.begun⟩ nextval statement) (fun _ ↦ Sees uow c base)
      (Throws (Sees uow c base)) w := by
  obtain ⟨view, hvalid, hactive⟩ := h
  refine (hactive.execInsert hnextval).mono ?_ fun stop w' hstop ↦ ⟨hstop.1, view, hvalid, hstop.2⟩
  rintro result w' ⟨connection, transaction, view', rfl, hstatement, hactive'⟩
  exact ⟨view', hkeeps _ _ _ _ hvalid hstatement, hactive'⟩

theorem Sees.call (h : Sees uow c base w) :
    Meets call (fun _ ↦ Sees uow c base) (Throws (Sees uow c base)) w := by
  obtain ⟨view, hvalid, hactive⟩ := h
  exact hactive.call.mono (fun _ _ hafter ↦ ⟨view, hvalid, hafter⟩)
    fun _ _ hstop ↦ ⟨hstop.1, view, hvalid, hstop.2⟩

theorem Sees.orThrow {α : Type} {result : Except String α} (h : Sees uow c base w) :
    Meets (orThrow result) (fun _ ↦ Sees uow c base) (Throws (Sees uow c base)) w := by
  obtain ⟨view, hvalid, hactive⟩ := h
  exact hactive.orThrow.mono (fun _ _ hafter ↦ ⟨view, hvalid, hafter.2⟩)
    fun _ _ hstop ↦ ⟨hstop.1, view, hvalid, hstop.2⟩

theorem Sees.createUser (h : Sees uow c base w) (email : String) :
    Meets (createUser ⟨c, base.begun⟩ email) (fun _ ↦ Sees uow c base)
      (Throws (Sees uow c base)) w := by
  have hinsert : Meets (insertUser ⟨c, base.begun⟩ email) _ _ w :=
    h.execInsert (fun _ ↦ ⟨rfl, rfl, rfl⟩) fun _ _ _ _ hvalid ↦ hvalid.insertUser
  refine .bind hinsert fun result w₁ h₁ ↦ ?_
  cases result with
  | none => exact .of_ok rfl h₁
  | some row =>
    have hparse : Meets (parseUser row) (fun _ ↦ Sees uow c base) (Throws (Sees uow c base)) w₁ :=
      .bind h₁.call fun _ _ h₂ ↦ h₂.orThrow
    exact .bind hparse fun _ _ h₂ ↦ .of_ok rfl h₂

theorem Sees.createPost (h : Sees uow c base w) (title : String) (description : Option String)
    (status : Status) (authorId : Option Int) :
    Meets (createPost ⟨c, base.begun⟩ title description status authorId) (fun _ ↦ Sees uow c base)
      (Throws (Sees uow c base)) w := by
  have hinsert : Meets (insertPost ⟨c, base.begun⟩ title description status authorId) _ _ w :=
    h.execInsert (fun _ ↦ ⟨rfl, rfl, rfl⟩) fun _ _ _ _ hvalid ↦ hvalid.insertPost
  exact .bind hinsert fun _ _ h₁ ↦ .bind h₁.call fun _ _ h₂ ↦ .bind h₂.orThrow
    fun _ _ h₃ ↦ h₃.orThrow

/-- The steps inside the `try` leave tables that keep to the constraints. -/
theorem createBoth_valid (hcell : base.units.cell uow = some u) (hactive : u.isActive = false)
    (hconn : u.conn = some c) (htxn : u.txn = none)
    (hvalid : (base.connections c).tables.Valid) : Meets (createBoth uow request)
      (fun _ w ↦ ∃ tables : Tables, tables.Valid ∧ Finished uow c base tables w)
      (Throws (Owned uow c base)) base := by
  refine .bind (begin_active_or_owned hcell hactive hconn htxn) fun _ w₁ h₁ ↦
    .of_step (bind_ok h₁.users) ?_
  have hsees : Sees uow c base w₁ := ⟨_, hvalid, h₁⟩
  refine .bind ((hsees.createUser request.email).mono (fun _ _ ↦ id)
    fun _ _ ↦ throws_owned_of_sees) fun result w₂ h₂ ↦ ?_
  cases result with
  | none =>
    refine .bind (h₂.owned.rollback.mono (fun _ _ ↦ id) fun _ _ hstop ↦
      ⟨hstop.1, hstop.2.owned⟩) fun _ w₃ h₃ ↦ .of_ok rfl ⟨_, hvalid, h₃⟩
  | some user =>
    obtain ⟨view, -, hactive₂⟩ := id h₂
    refine .of_step (bind_ok hactive₂.posts) (.bind ((h₂.createPost request.title
      request.description request.status (some user.id)).mono (fun _ _ ↦ id)
        fun _ _ ↦ throws_owned_of_sees) ?_)
    rintro post w₃ ⟨view', hvalid', hactive₃⟩
    exact .bind hactive₃.commit fun _ w₄ h₄ ↦ .of_ok rfl ⟨view', hvalid', h₄⟩

theorem Finished.tables_eq (h : Finished uow c base tables w) :
    (w.connections c).tables = tables := by
  obtain ⟨u, k, heffect, -, -, -, -, htables⟩ := h
  rw [heffect.connection, htables]

/-- What `Execute` leaves behind: what it reports, within the constraints. -/
structure Entered (c : ℕ) (request : Request) (w : World) (response : Response) (w' : World) :
    Prop where
  reported : Reported request response (w.connections c).tables (w'.connections c).tables
  valid : (w'.connections c).tables.Valid
  work : (w'.connections c).work = (w.connections c).work
  isOpen : (w'.connections c).isOpen = (w.connections c).isOpen

theorem execute_entered (allocator : Allocator) (request : Request)
    (hopen : (w.connections c).isOpen = true) (hvalid : (w.connections c).tables.Valid) :
    Meets (execute allocator c request) (Entered c request w) (fun _ _ ↦ False) w := by
  refine (execute_open allocator (fun response tables ↦
    Reported request response (w.connections c).tables tables ∧ tables.Valid) hopen
      (fun _ hfailed ↦ ⟨Or.inr ⟨hfailed, rfl⟩, hvalid⟩) fun uow base hcell hconnections ↦ ?_).mono
        (fun _ _ h ↦ ⟨h.1.1, h.1.2, h.2.1, h.2.2⟩) fun _ _ ↦ id
  rw [← hconnections] at hvalid ⊢
  have hspec : Meets (createBoth uow request) _ _ base := createBoth_spec hcell rfl rfl rfl
  refine (hspec.and (createBoth_valid hcell rfl rfl rfl hvalid)).mono ?_ fun _ _ hstop ↦ hstop.1
  rintro response w' ⟨⟨tables, hreported, hfinished⟩, tables', hvalid', hfinished'⟩
  obtain rfl := hfinished.tables_eq.symm.trans hfinished'.tables_eq
  exact ⟨tables, ⟨hreported, hvalid'⟩, hfinished⟩

end Request

/-! ### Runs -/

section Runs

variable (collation : Option (List Char) → Option (List Char) → Bool) (forum : Forum)
  (allocator : Allocator)

/-- What `main` executes. -/
inductive UseCase
  | getUserTagsFromComments
  | createUserWithPost (request : Request)

/-- The execution of a use case, and which of its calls throw. -/
structure Turn where
  useCase : UseCase
  failures : ℕ → Option String

/-- Execute a use case. The result is the request that it reports as done. -/
def Turn.run (c : ℕ) (turn : Turn) : DbM (Option Request) := do
  modify (·.prepared turn.failures)
  match turn.useCase with
  | .getUserTagsFromComments => do
    let _ ← GetUserTagsFromComments.execute collation forum allocator c
    return none
  | .createUserWithPost request => do
    let response ← execute allocator c request
    return if response.success then some request else none

/-- Execute one use case after another on a connection. The result are the requests that were
reported as done. -/
def serve (c : ℕ) : List Turn → DbM (List Request)
  | [] => return []
  | turn :: turns => do
    let done ← turn.run collation forum allocator c
    return done.toList ++ (← serve c turns)

/-- The rows hold what the request asks for. -/
def Enters (request : Request) (rows : UserRow × PostRow) : Prop :=
  rows.1.email = request.email ∧ rows.2.title = request.title ∧
    rows.2.description = request.description ∧ rows.2.status = statusToString request.status ∧
      rows.2.authorId = some rows.1.id

/-- What runs leave behind: one user and one post for every request that was done, in their order,
within the constraints. -/
structure Journal (c : ℕ) (w : World) (requests : List Request) (w' : World) : Prop where
  rows : ∃ rows, List.Forall₂ Enters requests rows ∧
    (w'.connections c).tables.users = (w.connections c).tables.users ++ rows.map Prod.fst ∧
      (w'.connections c).tables.posts = (w.connections c).tables.posts ++ rows.map Prod.snd
  valid : (w'.connections c).tables.Valid
  work : (w'.connections c).work = (w.connections c).work
  isOpen : (w'.connections c).isOpen = (w.connections c).isOpen

variable {collation forum allocator} {c : ℕ} {w w' w'' : World} {requests requests' : List Request}

theorem Journal.unchanged (h : w'.connections c = w.connections c)
    (hvalid : (w.connections c).tables.Valid) : Journal c w [] w' := by
  refine ⟨⟨[], .nil, ?_, ?_⟩, ?_, ?_, ?_⟩
  · rw [h, List.map_nil, List.append_nil]
  · rw [h, List.map_nil, List.append_nil]
  · rwa [h]
  · rw [h]
  · rw [h]

theorem Journal.trans (h : Journal c w requests w') (h' : Journal c w' requests' w'') :
    Journal c w (requests ++ requests') w'' := by
  obtain ⟨rows, henters, husers, hposts⟩ := h.rows
  obtain ⟨rows', henters', husers', hposts'⟩ := h'.rows
  refine ⟨⟨rows ++ rows', List.rel_append henters henters', ?_, ?_⟩, h'.valid,
    h'.work.trans h.work, h'.isOpen.trans h.isOpen⟩
  · rw [husers', husers, List.map_append, List.append_assoc]
  · rw [hposts', hposts, List.map_append, List.append_assoc]

theorem Entered.journal {request : Request} {response : Response}
    (h : Entered c request w response w') :
    Journal c w (if response.success then some request else none).toList w' := by
  refine ⟨?_, h.valid, h.work, h.isOpen⟩
  rcases h.reported with ⟨hsuccess, user, post, husers, hposts, hrows⟩ | ⟨hfailed, hsame⟩
  · rw [if_pos hsuccess]
    exact ⟨[(user, post)], .cons hrows .nil, husers, hposts⟩
  · rw [hfailed, hsame]
    exact ⟨[], .nil, (List.append_nil _).symm, (List.append_nil _).symm⟩

/-- One use case. -/
theorem Turn.run_spec (turn : Turn) (hopen : (w.connections c).isOpen = true)
    (hvalid : (w.connections c).tables.Valid) : Meets (turn.run collation forum allocator c)
      (fun done ↦ Journal c w done.toList) (fun _ _ ↦ False) w := by
  obtain ⟨useCase, failures⟩ := turn
  refine .of_step (bind_ok (modify_apply _ w)) ?_
  cases useCase with
  | getUserTagsFromComments =>
    have hkeeps := GetUserTagsFromComments.execute_keeps collation forum allocator c
      (w.prepared failures)
    exact .bind hkeeps fun _ w' hkept ↦ .of_ok rfl (.unchanged (congrFun hkept c) hvalid)
  | createUserWithPost request =>
    have hentered := execute_entered (w := w.prepared failures) allocator request hopen hvalid
    refine .bind hentered fun response w' h ↦ .of_ok rfl ?_
    obtain ⟨hrows, hvalid', hwork, hopen'⟩ := h.journal
    exact ⟨hrows, hvalid', hwork, hopen'⟩

/-- A run of use cases. -/
theorem serve_spec (c : ℕ) (turns : List Turn) (w : World)
    (hopen : (w.connections c).isOpen = true) (hvalid : (w.connections c).tables.Valid) :
    Meets (serve collation forum allocator c turns) (Journal c w) (fun _ _ ↦ False) w := by
  induction turns generalizing w with
  | nil => exact .pure (.unchanged rfl hvalid)
  | cons turn turns ih =>
    refine .bind (turn.run_spec hopen hvalid) fun done w₁ h₁ ↦ ?_
    exact .bind (ih w₁ (h₁.isOpen.trans hopen) h₁.valid) fun rest w₂ h₂ ↦ .of_ok rfl (h₁.trans h₂)

theorem Journal.emails (h : Journal c w requests w') :
    (w'.connections c).tables.users.map (·.email) =
      (w.connections c).tables.users.map (·.email) ++ requests.map (·.email) := by
  obtain ⟨rows, henters, husers, -⟩ := h.rows
  have hemails : List.Forall₂ (· = ·) (requests.map (·.email))
      (rows.map fun entered ↦ entered.1.email) :=
    List.forall₂_map_left_iff.mpr (List.forall₂_map_right_iff.mpr
      (henters.imp fun _ _ henter ↦ henter.1.symm))
  rw [List.forall₂_eq_eq_eq] at hemails
  rw [husers, List.map_append, List.map_map, hemails]
  rfl

/-- A database without rows. -/
def emptyDatabase : World where
  connections _ := ⟨true, ⟨[], []⟩, 1, 1, none⟩
  units := Heap.empty
  begun := 0
  clock _ := "2024-01-01 00:00:00+00"
  calls := 0
  failures _ := none

theorem valid_emptyDatabase (c : ℕ) : (emptyDatabase.connections c).tables.Valid :=
  ⟨.nil, .nil, List.forall_mem_nil _, .nil, List.forall_mem_nil _, List.forall_mem_nil _⟩

end Runs

end StudStuff.Dbms
