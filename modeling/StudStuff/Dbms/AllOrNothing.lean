import StudStuff.Dbms.CreateUserWithPost
import StudStuff.Dbms.Effects

/-!
# `CreateUserWithPost` is all or nothing

Whichever calls throw, `Execute` reports success exactly when the user and the post have become
durable, and otherwise the tables are as they were. It leaves the connection as it found it, so
the next unit of work can begin.

A unit of work is in one of three situations on the way. It is `Active`, with a transaction that
sees some contents of the tables. It is `Owned` whatever `Begin`, a statement or the validation of
a row threw: what is open is its own, and nothing is durable yet. Or it is `Finished`, with nothing
open. `Rollback` leads from the second situation to the third, even if it throws.
-/

set_option autoImplicit false
set_option relaxedAutoImplicit false

namespace StudStuff.Dbms

open Lib

/-! ### Texts -/

section Texts

theorem length_le_utf8ByteSize_ofList (chars : List Char) :
    chars.length ≤ (String.ofList chars).utf8ByteSize := by
  induction chars with
  | nil => exact Nat.zero_le _
  | cons char chars ih =>
    have hcons : String.ofList (char :: chars) = String.singleton char ++ String.ofList chars := by
      rw [← String.toList_inj]
      simp
    have hpos := Char.utf8Size_pos char
    rw [hcons, String.utf8ByteSize_append, String.utf8ByteSize_singleton, List.length_cons]
    omega

/-- A text has at least as many bytes as characters. -/
theorem length_le_utf8ByteSize (text : String) : text.length ≤ text.utf8ByteSize := by
  have hle := length_le_utf8ByteSize_ofList text.toList
  rwa [String.ofList_toList, String.length_toList] at hle

/-- A text that was stored and that an entity accepts was not cut. -/
theorem varchar_eq {text stored : String} (hstored : varchar 255 text = .ok stored)
    (hle : stored.utf8ByteSize ≤ kMaxLength) : stored = text := by
  apply (varchar_ok hstored).resolve_right
  intro hcut
  have hlength := length_le_utf8ByteSize stored
  rw [kMaxLength] at hle
  omega

/-- A description that was stored and that the post accepts was not cut. -/
theorem mapM_varchar_eq {description stored : Option String}
    (hstored : description.mapM (varchar 255) = .ok stored)
    (hle : ∀ text ∈ stored, text.utf8ByteSize ≤ kMaxLength) : stored = description := by
  cases description with
  | none =>
    cases hstored
    rfl
  | some text =>
    cases htext : varchar 255 text with
    | error what =>
      rw [Option.mapM_some, htext] at hstored
      cases hstored
    | ok text' =>
      rw [Option.mapM_some, htext] at hstored
      cases hstored
      rw [varchar_eq htext (hle text' rfl)]

/-- The texts of the statuses fit into their column. -/
theorem varchar_status {status : Status} {stored : String}
    (hstored : varchar 20 (statusToString status) = .ok stored) :
    stored = statusToString status := by
  have hfits : varchar 20 (statusToString status) = .ok (statusToString status) :=
    if_pos (by cases status <;> decide)
  exact (Except.ok.inj (hfits.symm.trans hstored)).symm

theorem User.make_ok {id : Int} {email date : String} {user : User}
    (h : User.make id email date = .ok user) :
    user.id = id ∧ user.email = email := by
  unfold User.make at h
  split_ifs at h
  cases h
  exact ⟨rfl, rfl⟩

theorem Post.make_ok {id : Int} {title date : String} {status : Status} {authorId : Option Int}
    {description : Option String} {post : Post}
    (h : Post.make id title date status authorId description = .ok post) :
    post.title = title ∧ post.description = description := by
  unfold Post.make at h
  split_ifs at h
  cases h
  exact ⟨rfl, rfl⟩

end Texts

/-! ### Situations -/

section Situations

open UnitOfWork

variable {uow c : ℕ} {base w : World} {u : UnitOfWork} {k : Connection} {view tables : Tables}

/-- Only the unit of work and the connection changed, and nothing became durable. -/
structure Session (uow c : ℕ) (base : World) (u : UnitOfWork) (k : Connection) (w : World) :
    Prop where
  effect : Effect uow u c k base w
  tables : k.tables = (base.connections c).tables
  isOpen : k.isOpen = (base.connections c).isOpen

/-- The unit of work is active, and its transaction sees some contents of the tables. -/
def Active (uow c : ℕ) (base : World) (view : Tables) (w : World) : Prop :=
  (base.connections c).work = none ∧ ∃ u k transaction, Session uow c base u k w ∧
    u.isActive = true ∧ u.txn = some ⟨c, base.begun⟩ ∧ u.userRepo = u.txn ∧ u.postRepo = u.txn ∧
      k.work = some transaction ∧ transaction.number = base.begun ∧ transaction.view = view

/-- What is open on the connection is what was open before, or belongs to the unit of work. -/
def Owned (uow c : ℕ) (base w : World) : Prop :=
  ∃ u k, Session uow c base u k w ∧
    (u.isActive = false ∧ u.txn = none ∧ k.work = (base.connections c).work ∨
      (base.connections c).work = none ∧ ∃ number, u.txn = some ⟨c, number⟩ ∧
        ∀ transaction, k.work = some transaction → transaction.number = number)

/-- The unit of work is done. The tables have some contents, and what is open on the connection is
what was open before. -/
def Finished (uow c : ℕ) (base : World) (tables : Tables) (w : World) : Prop :=
  ∃ u k, Effect uow u c k base w ∧ u.isActive = false ∧ u.txn = none ∧
    k.work = (base.connections c).work ∧ k.isOpen = (base.connections c).isOpen ∧
      k.tables = tables

theorem Active.owned (h : Active uow c base view w) : Owned uow c base w := by
  obtain ⟨hidle, u, k, transaction, hsession, -, htxn, -, -, hwork, hnumber, -⟩ := h
  refine ⟨u, k, hsession, Or.inr ⟨hidle, base.begun, htxn, fun other hother ↦ ?_⟩⟩
  rw [hwork, Option.some.injEq] at hother
  rw [← hother, hnumber]

theorem Finished.owned (h : Finished uow c base (base.connections c).tables w) :
    Owned uow c base w := by
  obtain ⟨u, k, heffect, hactive, htxn, hwork, hopen, htables⟩ := h
  exact ⟨u, k, ⟨heffect, htables, hopen⟩, Or.inl ⟨hactive, htxn, hwork⟩⟩

/-- `Begin` makes the unit of work active, on the contents that are durable. -/
theorem begin_active_or_owned (hcell : base.units.cell uow = some u) (hactive : u.isActive = false)
    (hconn : u.conn = some c) (htxn : u.txn = none) :
    Meets (begin uow) (fun _ ↦ Active uow c base (base.connections c).tables)
      (Throws (Owned uow c base)) base := by
  refine (begin_spec hcell hactive hconn fun _ ↦ htxn).mono ?_ ?_
  · rintro - w ⟨hidle, -, -, hholds⟩
    exact ⟨hidle, _, _, _, ⟨hholds.effect, rfl, rfl⟩, rfl, rfl, rfl, rfl, rfl, rfl, rfl⟩
  · rintro stop w ⟨hthrown, u', hflag, hfails⟩
    refine ⟨hthrown, ?_⟩
    cases hfails with
    | refused _ heffect => exact ⟨u, _, ⟨heffect, rfl, rfl⟩, Or.inl ⟨hactive, htxn, rfl⟩⟩
    | broken _ hidle _ hholds =>
      refine ⟨u', _, ⟨hholds.effect, rfl, rfl⟩,
        Or.inr ⟨hidle, base.begun, hholds.txn, fun other hother ↦ ?_⟩⟩
      exact congrArg OpenWork.number (Option.some.inj hother.symm)

/-- `Rollback` closes what the unit of work owns, whether it returns or throws. -/
theorem Owned.rollback (h : Owned uow c base w) :
    Meets (rollback uow) (fun _ ↦ Finished uow c base (base.connections c).tables)
      (Throws (Finished uow c base (base.connections c).tables)) w := by
  obtain ⟨u, k, ⟨heffect, htables, hopen⟩, hcase⟩ := h
  rcases hcase with ⟨hactive, htxn, hwork⟩ | ⟨hidle, number, htxn, hnumber⟩
  · obtain ⟨w', hrun, heffect'⟩ := heffect.cleanup_none htxn
    exact .of_ok ((rollback_inactive heffect.unit hactive).trans hrun)
      ⟨_, _, heffect', rfl, rfl, hwork, hopen, htables⟩
  · have hfinished {w' : World}
        (heffect' : Effect uow u.cleaned c { k with work := none } base w') :
        Finished uow c base (base.connections c).tables w' :=
      ⟨_, _, heffect', rfl, rfl, hidle.symm, hopen, htables⟩
    cases hactive : u.isActive with
    | false =>
      obtain ⟨w', hrun, heffect'⟩ := heffect.cleanup htxn hnumber
      exact .of_ok ((rollback_inactive heffect.unit hactive).trans hrun) (hfinished heffect')
    | true =>
      have hmeets := rollback_active heffect.unit hactive htxn (heffect.connection ▸ hnumber)
      rw [heffect.connection] at hmeets
      exact hmeets.mono (fun _ _ heffect' ↦ hfinished (heffect.trans heffect'))
        fun _ _ hstop ↦ ⟨hstop.1, hfinished (heffect.trans hstop.2)⟩

/-- `Commit` makes what the transaction sees durable, or nothing. -/
theorem Active.commit (h : Active uow c base view w) :
    Meets (commit uow) (fun _ ↦ Finished uow c base view)
      (Throws (Owned uow c base)) w := by
  obtain ⟨hidle, u, k, transaction, ⟨heffect, htables, hopen⟩, hactive, htxn, -, -, hwork, hnumber,
    hview⟩ := h
  rw [← hnumber] at htxn
  have hmeets := commit_spec heffect.unit hactive htxn (heffect.connection ▸ hwork)
  rw [heffect.connection] at hmeets
  refine hmeets.mono (fun _ _ heffect' ↦ ?_) fun _ _ hstop ↦ ⟨hstop.1, Finished.owned ?_⟩
  · exact ⟨_, _, heffect.trans heffect', rfl, rfl, hidle.symm, hopen, hview⟩
  · exact ⟨_, _, heffect.trans hstop.2, rfl, rfl, hidle.symm, hopen, htables⟩

theorem Active.users (h : Active uow c base view w) :
    users uow w = .ok ⟨c, base.begun⟩ w := by
  obtain ⟨-, u, k, transaction, hsession, hactive, htxn, huser, -, -⟩ := h
  unfold UnitOfWork.users repository
  rw [bind_ok (readUnit_apply hsession.effect.unit), hactive, huser, htxn]
  rfl

theorem Active.posts (h : Active uow c base view w) :
    posts uow w = .ok ⟨c, base.begun⟩ w := by
  obtain ⟨-, u, k, transaction, hsession, hactive, htxn, -, hpost, -⟩ := h
  unfold UnitOfWork.posts repository
  rw [bind_ok (readUnit_apply hsession.effect.unit), hactive, hpost, htxn]
  rfl

theorem Active.called (h : Active uow c base view w) : Active uow c base view w.called := by
  obtain ⟨hidle, u, k, transaction, ⟨heffect, htables, hopen⟩, hrest⟩ := h
  exact ⟨hidle, u, k, transaction, ⟨heffect.called, htables, hopen⟩, hrest⟩

/-- A call in a transaction. -/
theorem Active.call (h : Active uow c base view w) :
    Meets call (fun _ ↦ Active uow c base view) (Throws (Active uow c base view)) w := by
  cases hcall : w.failures w.calls with
  | some what => exact .of_error (call_error hcall) ⟨⟨what, rfl⟩, h.called⟩
  | none => exact .of_ok (call_ok hcall) h.called

/-- An `INSERT` changes what the transaction sees, and nothing that is durable. -/
theorem Active.execInsert {α : Type} {nextval : Connection → Connection}
    {statement : Connection → OpenWork → Except String (α × Tables)}
    (h : Active uow c base view w)
    (hnextval : ∀ connection, (nextval connection).tables = connection.tables ∧
      (nextval connection).isOpen = connection.isOpen ∧
        (nextval connection).work = connection.work) :
    Meets (execInsert ⟨c, base.begun⟩ nextval statement)
      (fun result w' ↦ ∃ connection transaction view', transaction.view = view ∧
        statement connection transaction = .ok (result, view') ∧ Active uow c base view' w')
      (Throws (Active uow c base view)) w := by
  unfold Dbms.execInsert
  refine .bind h.call fun _ w₁ h₁ ↦ .of_step (bind_ok (get_apply w₁)) ?_
  obtain ⟨hidle, u, k, transaction, ⟨heffect, htables, hopen⟩, hactive, htxn, huser, hpost, hwork,
    hnumber, hview⟩ := h₁
  have hopen? : w₁.open? ⟨c, base.begun⟩ = some transaction := by
    simp [World.open?, heffect.connection, hwork, hnumber]
  obtain ⟨hsame, hsame', hsame''⟩ := hnextval k
  cases hstatement : statement k transaction with
  | error what =>
    simp only [hopen?, heffect.connection, hstatement]
    refine .of_step (bind_ok (set_apply _ _)) (Meets.raise ⟨hidle, u, _, transaction,
      ⟨heffect.setConnection (nextval k), hsame.trans htables, hsame'.trans hopen⟩, hactive, htxn,
      huser, hpost, hsame''.trans hwork, hnumber, hview⟩)
  | ok result =>
    simp only [hopen?, heffect.connection, hstatement]
    refine .of_ok (bind_ok (set_apply _ _)) ⟨k, transaction, result.2, hview, hstatement, ?_⟩
    exact ⟨hidle, u, _, _, ⟨heffect.setConnection _, hsame.trans htables, hsame'.trans hopen⟩,
      hactive, htxn, huser, hpost, rfl, hnumber, rfl⟩

/-- A value that may be rejected. -/
theorem Active.orThrow {α : Type} {result : Except String α} (h : Active uow c base view w) :
    Meets (orThrow result) (fun value w' ↦ result = .ok value ∧ Active uow c base view w')
      (Throws (Active uow c base view)) w := by
  cases result with
  | ok value => exact .of_ok rfl ⟨rfl, h⟩
  | error what => exact Meets.raise h

end Situations

/-! ### The statements of the use case -/

section Statements

variable {uow c : ℕ} {base w : World} {view : Tables}

/-- The validation of a row that was inserted. It changes nothing. -/
theorem Active.parseUser (h : Active uow c base view w) (row : UserRow) :
    Meets (parseUser row)
      (fun user w' ↦ User.make row.id row.email row.date = .ok user ∧ Active uow c base view w')
      (Throws (Active uow c base view)) w :=
  .bind h.call fun _ _ h₁ ↦ h₁.orThrow

theorem Active.parsePost (h : Active uow c base view w) (row : PostRow) :
    Meets (parsePost row)
      (fun post w' ↦ (∃ status, Post.make row.id row.title row.date status row.authorId
        row.description = .ok post) ∧ Active uow c base view w')
      (Throws (Active uow c base view)) w := by
  refine .bind h.call fun _ _ h₁ ↦ .bind h₁.orThrow fun status w₂ h₂ ↦ ?_
  exact h₂.2.orThrow.mono (fun post _ hpost ↦ ⟨⟨status, hpost.1⟩, hpost.2⟩) fun _ _ ↦ id

theorem throws_owned {stop : Stop} {w' : World} (h : Throws (Active uow c base view) stop w') :
    Throws (Owned uow c base) stop w' :=
  ⟨h.1, h.2.owned⟩

/-- The user is a new row of the contents that the transaction sees, or the email exists. -/
theorem Active.createUser (h : Active uow c base view w) (email : String) :
    Meets (createUser ⟨c, base.begun⟩ email)
      (fun result w' ↦ result = none ∧ Active uow c base view w' ∨ ∃ user row,
        result = some user ∧ row.id = user.id ∧ row.email = email ∧
          Active uow c base { view with users := view.users ++ [row] } w')
      (Throws (Owned uow c base)) w := by
  have hinsert : Meets (insertUser ⟨c, base.begun⟩ email) _ (Throws (Active uow c base view)) w :=
    h.execInsert fun _ ↦ ⟨rfl, rfl, rfl⟩
  refine .bind (hinsert.mono (fun _ _ ↦ id) fun _ _ ↦ throws_owned) ?_
  rintro result w₁ ⟨connection, transaction, view₁, hview, hstatement, h₁⟩
  obtain ⟨stored, hemail, -, ⟨rfl, hsame, -⟩ | ⟨rfl, hadded, -⟩⟩ := insertUser_eq_ok hstatement
  · rw [hsame, hview] at h₁
    exact .of_ok rfl (Or.inl ⟨rfl, h₁⟩)
  · rw [hadded, hview] at h₁
    refine .bind ((h₁.parseUser _).mono (fun _ _ ↦ id) fun _ _ ↦ throws_owned) ?_
    rintro user w₂ ⟨hmake, h₂⟩
    obtain ⟨hid, hsame⟩ := User.make_ok hmake
    refine .of_ok rfl (Or.inr ⟨user, _, rfl, hid.symm, ?_, h₂⟩)
    exact varchar_eq hemail (hsame ▸ user.email_le)

/-- The post is a new row of the contents that the transaction sees. -/
theorem Active.createPost (h : Active uow c base view w) (title : String)
    (description : Option String) (status : Status) (authorId : Option Int) :
    Meets (createPost ⟨c, base.begun⟩ title description status authorId)
      (fun _ w' ↦ ∃ row : PostRow, row.title = title ∧ row.description = description ∧
        row.status = statusToString status ∧ row.authorId = authorId ∧
          Active uow c base { view with posts := view.posts ++ [row] } w')
      (Throws (Owned uow c base)) w := by
  have hinsert : Meets (insertPost ⟨c, base.begun⟩ title description status authorId) _
      (Throws (Active uow c base view)) w := h.execInsert fun _ ↦ ⟨rfl, rfl, rfl⟩
  refine .bind (hinsert.mono (fun _ _ ↦ id) fun _ _ ↦ throws_owned) ?_
  rintro row w₁ ⟨connection, transaction, view₁, hview, hstatement, h₁⟩
  obtain ⟨title', description', status', htitle, hdescription, hstatus, rfl, hadded, -⟩ :=
    insertPost_eq_ok hstatement
  rw [hadded, hview] at h₁
  refine (h₁.parsePost _).mono ?_ fun _ _ ↦ throws_owned
  rintro post w₂ ⟨⟨status'', hmake⟩, h₂⟩
  obtain ⟨hsame, hsame'⟩ := Post.make_ok hmake
  exact ⟨_, varchar_eq htitle (hsame ▸ post.title_le),
    mapM_varchar_eq hdescription (hsame' ▸ post.description_le), varchar_status hstatus, rfl, h₂⟩

end Statements

/-! ### `Execute` -/

section Execute

open UnitOfWork

variable {uow c : ℕ} {base w w' : World} {u : UnitOfWork} {request : Request}

/-- The new user and the new post by that user were added to the tables. -/
def Created (request : Request) (before after : Tables) : Prop :=
  ∃ user post, after.users = before.users ++ [user] ∧ after.posts = before.posts ++ [post] ∧
    user.email = request.email ∧ post.title = request.title ∧
      post.description = request.description ∧ post.status = statusToString request.status ∧
        post.authorId = some user.id

/-- What the response reports of the tables. -/
def Reported (request : Request) (response : Response) (before after : Tables) : Prop :=
  response.success = true ∧ Created request before after ∨
    response.success = false ∧ after = before

/-- The steps inside the `try`. -/
theorem createBoth_spec (hcell : base.units.cell uow = some u) (hactive : u.isActive = false)
    (hconn : u.conn = some c) (htxn : u.txn = none) : Meets (createBoth uow request)
      (fun response w' ↦ ∃ tables, Reported request response (base.connections c).tables tables ∧
        Finished uow c base tables w')
      (Throws (Owned uow c base)) base := by
  refine .bind (begin_active_or_owned hcell hactive hconn htxn) fun _ w₁ h₁ ↦
    .of_step (bind_ok h₁.users) (.bind (h₁.createUser request.email) ?_)
  rintro result w₂ (⟨rfl, h₂⟩ | ⟨user, row, rfl, hid, hemail, h₂⟩)
  · refine .bind (h₂.owned.rollback.mono (fun _ _ ↦ id) fun _ _ hstop ↦
      ⟨hstop.1, hstop.2.owned⟩) fun _ w₃ h₃ ↦ .of_ok rfl ⟨_, Or.inr ⟨rfl, rfl⟩, h₃⟩
  · refine .of_step (bind_ok h₂.posts) (.bind (h₂.createPost request.title request.description
      request.status (some user.id)) ?_)
    rintro post w₃ ⟨row', htitle, hdescription, hstatus, hauthor, h₃⟩
    refine .bind h₃.commit fun _ w₄ h₄ ↦ .of_ok rfl ⟨_, Or.inl ⟨rfl, row, row', rfl, rfl, hemail,
      htitle, hdescription, hstatus, ?_⟩, h₄⟩
    rw [hauthor, hid]

/-- The handler reports a failure and leaves the tables as they were. -/
theorem recover_failed (h : Owned uow c base w) (what : String) : Meets (recover uow what)
    (fun response w' ↦ response.success = false ∧
      Finished uow c base (base.connections c).tables w') (fun _ _ ↦ False) w :=
  .bind (Meets.catchException h.rollback fun _ _ h₁ ↦ .of_ok rfl h₁)
    fun _ _ (h₁ : Finished uow c base (base.connections c).tables _) ↦ .of_ok rfl ⟨rfl, h₁⟩

theorem create_apply (allocator : Allocator) (hopen : (w.connections c).isOpen = true) :
    create allocator c w = .ok (allocator.pick w.begun w.units.live)
      (w.setUnit (allocator.pick w.begun w.units.live) (.fresh (some c))) := by
  unfold create
  rw [bind_ok (get_apply w), if_pos hopen]
  rfl

theorem create_closed (allocator : Allocator) (hopen : (w.connections c).isOpen = false) :
    create allocator c w = .error (.thrown "Database connection is not available") w := by
  unfold create
  rw [bind_ok (get_apply w), if_neg (Bool.eq_false_iff.mp hopen)]
  rfl

/-- The next unit of work on a connection without an open work can begin. -/
theorem next_begins (allocator : Allocator) (hopen : (w.connections c).isOpen = true)
    (hwork : (w.connections c).work = none) :
    ∃ w', (do UnitOfWork.begin (← create allocator c) : DbM Unit) (w.prepared fun _ ↦ none) =
      .ok () w' := by
  have hcreate : create allocator c (w.prepared fun _ ↦ none) = .ok _ _ :=
    create_apply allocator hopen
  obtain ⟨w', hrun⟩ := begin_returns (cell_setUnit (w.prepared fun _ ↦ none) _ (.fresh (some c)))
    rfl rfl rfl hwork fun _ ↦ rfl
  exact ⟨w', (bind_ok hcreate).trans hrun⟩

/-- What holds when `Execute` returns: success means that the user and the post are durable, and
otherwise the tables are as they were. What is open on the connection is what was open before, so
the next unit of work can begin if this one could. -/
structure AllOrNothing (c : ℕ) (request : Request) (w : World) (response : Response) (w' : World) :
    Prop where
  success_iff : response.success = true ↔
    Created request (w.connections c).tables (w'.connections c).tables
  unchanged : response.success = false → (w'.connections c).tables = (w.connections c).tables
  closed : (w'.connections c).work = (w.connections c).work
  next : ∀ allocator, (w.connections c).isOpen = true → (w.connections c).work = none →
    ∃ w'', (do UnitOfWork.begin (← create allocator c) : DbM Unit) (w'.prepared fun _ ↦ none) =
      .ok () w''

theorem not_created_self (tables : Tables) : ¬Created request tables tables := by
  rintro ⟨user, post, husers, -⟩
  have hlength := congrArg List.length husers
  rw [List.length_append, List.length_singleton] at hlength
  omega

theorem AllOrNothing.of_reported {response : Response}
    (hreported : Reported request response (w.connections c).tables (w'.connections c).tables)
    (hwork : (w'.connections c).work = (w.connections c).work)
    (hopen : (w'.connections c).isOpen = (w.connections c).isOpen) :
    AllOrNothing c request w response w' := by
  refine ⟨?_, fun hfailed ↦ ?_, hwork, fun allocator hopen' hnone ↦ ?_⟩
  · rcases hreported with ⟨hsuccess, hcreated⟩ | ⟨hfailed, hsame⟩
    · simp [hsuccess, hcreated]
    · simp [hfailed, hsame, not_created_self]
  · rcases hreported with ⟨hsuccess, -⟩ | ⟨-, hsame⟩
    · rw [hfailed] at hsuccess
      cases hsuccess
    · exact hsame
  · exact next_begins allocator (hopen.trans hopen') (hwork.trans hnone)

/-- A request without an email or a title is refused at once, so only the others are looked at. -/
theorem meets_execute {allocator : Allocator} {returns : Response → World → Prop}
    {throws : Stop → World → Prop}
    (hrefused : ∀ error, returns (.ofError error) w)
    (haccepted : request.email ≠ "" → request.title ≠ "" →
      Meets (execute allocator c request) returns throws w) :
    Meets (execute allocator c request) returns throws w := by
  by_cases hemail : request.email = ""
  · unfold execute
    rw [if_pos hemail]
    exact .pure (hrefused _)
  by_cases htitle : request.title = ""
  · unfold execute
    rw [if_neg hemail, if_pos htitle]
    exact .pure (hrefused _)
  exact haccepted hemail htitle

/-- On an open connection `Execute` returns. What it reports of the tables is what the steps inside
the `try` report, or a failure. -/
theorem execute_open (allocator : Allocator) (reports : Response → Tables → Prop)
    (hopen : (w.connections c).isOpen = true)
    (hfails : ∀ response, response.success = false → reports response (w.connections c).tables)
    (hboth : ∀ uow base, base.units.cell uow = some (.fresh (some c)) →
      base.connections = w.connections → Meets (createBoth uow request)
        (fun response w' ↦ ∃ tables, reports response tables ∧ Finished uow c base tables w')
        (Throws (Owned uow c base)) base) :
    Meets (execute allocator c request) (fun response w' ↦
      reports response (w'.connections c).tables ∧
        (w'.connections c).work = (w.connections c).work ∧
          (w'.connections c).isOpen = (w.connections c).isOpen) (fun _ _ ↦ False) w := by
  refine meets_execute (fun error ↦ ⟨hfails _ rfl, rfl, rfl⟩) fun hemail htitle ↦ ?_
  unfold execute
  rw [if_neg hemail, if_neg htitle]
  refine .of_step (bind_ok (create_apply allocator hopen)) ?_
  generalize allocator.pick w.begun w.units.live = uow
  refine .bind (Meets.catchException (hboth uow _ (cell_setUnit ..) rfl) ?_) ?_
  · intro what w' h
    refine (recover_failed h what).mono ?_ fun _ _ ↦ id
    rintro response w'' ⟨hfailed, hfinished⟩
    exact ⟨_, hfails response hfailed, hfinished⟩
  · rintro response w₁ ⟨tables, hreports, u, k, heffect, hactive, htxn, hwork, hsame, rfl⟩
    refine .of_step (bind_ok (destroy_inactive heffect.unit hactive htxn)) (.pure ?_)
    rw [World.released, heffect.connection]
    exact ⟨hreports, hwork, hsame⟩

/-- `Execute` is all or nothing for every request, every state of the database and whichever calls
throw. It throws only if the connection is closed before it starts. -/
theorem execute_allOrNothing (allocator : Allocator) (c : ℕ) (request : Request) (w : World) :
    Meets (execute allocator c request) (AllOrNothing c request w)
      (fun stop w' ↦ stop = .thrown "Database connection is not available" ∧ w' = w) w := by
  have hrefused (error : String) : AllOrNothing c request w (.ofError error) w :=
    .of_reported (Or.inr ⟨rfl, rfl⟩) rfl rfl
  cases hopen : (w.connections c).isOpen with
  | false =>
    refine meets_execute hrefused fun hemail htitle ↦ ?_
    unfold execute
    rw [if_neg hemail, if_neg htitle]
    exact .of_error (bind_error (create_closed allocator hopen)) ⟨rfl, rfl⟩
  | true =>
    refine (execute_open allocator (Reported request · (w.connections c).tables) hopen
      (fun _ hfailed ↦ Or.inr ⟨hfailed, rfl⟩) fun uow base hcell hconnections ↦ ?_).mono
        (fun _ _ h ↦ .of_reported h.1 h.2.1 h.2.2) fun _ _ ↦ False.elim
    rw [← hconnections]
    exact createBoth_spec hcell rfl rfl rfl

end Execute

end StudStuff.Dbms
