import StudStuff.Dbms.Journal
import StudStuff.Dbms.Stable

/-!
# Which requests are admitted

When no call fails, a request is done exactly if its texts are valid for the entities and its email
is new. The other checks of the schema and of the entities never reject it: the numbers of the
sequences are ahead of those of the rows (`Quiet`), the author of the post is the user that was just
inserted, and the status is one of the three. A run of use cases then does what `admitted` says
(`serve_admits`).
-/

set_option autoImplicit false
set_option relaxedAutoImplicit false

namespace StudStuff.Dbms

open Lib

/-! ### The sequences -/

section Sequences

variable {w : World} {c : ℕ} {tables tables' : Tables} {nextUserId nextPostId : Int}

/-- The next numbers of the sequences are ahead of those of the rows. -/
structure Tables.Below (tables : Tables) (nextUserId nextPostId : Int) : Prop where
  userId : 0 ≤ nextUserId
  postId : 0 ≤ nextPostId
  users : ∀ user ∈ tables.users, user.id < nextUserId
  posts : ∀ post ∈ tables.posts, post.id < nextPostId

theorem Tables.Below.nextUser (h : tables.Below nextUserId nextPostId) :
    tables.Below (nextUserId + 1) nextPostId :=
  ⟨Int.add_nonneg h.userId Int.one_nonneg, h.postId,
    fun user hmem ↦ (h.users user hmem).trans (Int.lt_succ _), h.posts⟩

theorem Tables.Below.nextPost (h : tables.Below nextUserId nextPostId) :
    tables.Below nextUserId (nextPostId + 1) :=
  ⟨h.userId, Int.add_nonneg h.postId Int.one_nonneg, h.users,
    fun post hmem ↦ (h.posts post hmem).trans (Int.lt_succ _)⟩

theorem Tables.Below.insertUser (h : tables.Below nextUserId nextPostId) {date email : String}
    {result : Option UserRow}
    (hinsert : tables.insertUser nextUserId date email = .ok (result, tables')) :
    tables'.Below (nextUserId + 1) nextPostId := by
  obtain ⟨stored, -, -, ⟨-, rfl, -⟩ | ⟨-, rfl, -, -⟩⟩ := insertUser_eq_ok hinsert
  · exact h.nextUser
  refine ⟨h.nextUser.userId, h.postId, fun user hmem ↦ ?_, h.posts⟩
  rcases List.mem_append.mp hmem with hold | hnew
  · exact h.nextUser.users user hold
  · rw [List.mem_singleton.mp hnew]
    exact Int.lt_succ _

theorem Tables.Below.insertPost (h : tables.Below nextUserId nextPostId)
    {date title status : String} {description : Option String} {authorId : Option Int}
    {row : PostRow} (hinsert : tables.insertPost nextPostId date title description status authorId =
      .ok (row, tables')) : tables'.Below nextUserId (nextPostId + 1) := by
  obtain ⟨title', description', status', -, -, -, rfl, rfl, -⟩ := insertPost_eq_ok hinsert
  refine ⟨h.userId, h.nextPost.postId, h.users, fun post hmem ↦ ?_⟩
  rcases List.mem_append.mp hmem with hold | hnew
  · exact h.nextPost.posts post hold
  · rw [List.mem_singleton.mp hnew]
    exact Int.lt_succ _

/-- The sequences are ahead of what is durable and of what the open transaction sees. -/
structure Connection.Ahead (k : Connection) : Prop where
  tables : k.tables.Below k.nextUserId k.nextPostId
  view : ∀ transaction ∈ k.work, transaction.view.Below k.nextUserId k.nextPostId ∧
    transaction.now.utf8ByteSize ≤ kMaxLength

/-- No call fails, the times fit into the entities, and the sequences are ahead. -/
structure Quiet (c : ℕ) (w : World) : Prop where
  silent : ∀ index, w.failures index = none
  clock : ∀ number, (w.clock number).utf8ByteSize ≤ kMaxLength
  ahead : (w.connections c).Ahead

theorem Quiet.setConnection (h : Quiet c w) {other : ℕ} {k : Connection}
    (hk : other = c → k.Ahead) : Quiet c (w.setConnection other k) := by
  refine ⟨h.silent, h.clock, ?_⟩
  by_cases hother : c = other
  · have hself : (w.setConnection other k).connections other = k := Function.update_self ..
    rw [hother, hself]
    exact hk hother.symm
  · have hkept : (w.setConnection other k).connections c = w.connections c :=
      Function.update_of_ne hother ..
    rw [hkept]
    exact h.ahead

/-- No program over units of work makes a sequence fall behind. -/
theorem stable_quiet (c : ℕ) : Stable (Quiet c) where
  called _ h := ⟨h.silent, h.clock, h.ahead⟩
  setUnit _ _ _ _ _ _ h := ⟨h.silent, h.clock, h.ahead⟩
  created _ _ _ h := ⟨h.silent, h.clock, h.ahead⟩
  released _ _ h := ⟨h.silent, h.clock, h.ahead⟩
  opened w other h := by
    have hopened : Quiet c (w.setConnection other { w.connections other with
        work := some ⟨w.begun, w.clock w.begun, (w.connections other).tables⟩ }) := by
      refine h.setConnection fun hother ↦ ?_
      rw [hother]
      refine ⟨h.ahead.tables, fun transaction hmem ↦ ?_⟩
      cases hmem
      exact ⟨h.ahead.tables, h.clock _⟩
    exact ⟨hopened.silent, hopened.clock, hopened.ahead⟩
  closed w other h := by
    refine h.setConnection fun hother ↦ ?_
    rw [hother]
    exact ⟨h.ahead.tables, fun _ hmem ↦ by cases hmem⟩
  committed w other transaction hwork h := by
    refine h.setConnection fun hother ↦ ?_
    rw [hother] at hwork ⊢
    exact ⟨(h.ahead.view transaction hwork).1, fun _ hmem ↦ by cases hmem⟩
  insertedUser w other transaction email hwork h := by
    refine ⟨h.setConnection fun hother ↦ ?_, fun result view hinsert ↦
      h.setConnection fun hother ↦ ?_⟩
    · rw [hother]
      exact ⟨h.ahead.tables.nextUser, fun open' hmem ↦
        ⟨(h.ahead.view open' hmem).1.nextUser, (h.ahead.view open' hmem).2⟩⟩
    · rw [hother] at hwork hinsert ⊢
      obtain ⟨hview, hnow⟩ := h.ahead.view transaction hwork
      refine ⟨h.ahead.tables.nextUser, fun open' hmem ↦ ?_⟩
      cases hmem
      exact ⟨hview.insertUser hinsert, hnow⟩
  insertedPost w other transaction title description status authorId hwork h := by
    refine ⟨h.setConnection fun hother ↦ ?_, fun row view hinsert ↦
      h.setConnection fun hother ↦ ?_⟩
    · rw [hother]
      exact ⟨h.ahead.tables.nextPost, fun open' hmem ↦
        ⟨(h.ahead.view open' hmem).1.nextPost, (h.ahead.view open' hmem).2⟩⟩
    · rw [hother] at hwork hinsert ⊢
      obtain ⟨hview, hnow⟩ := h.ahead.view transaction hwork
      refine ⟨h.ahead.tables.nextPost, fun open' hmem ↦ ?_⟩
      cases hmem
      exact ⟨hview.insertPost hinsert, hnow⟩

end Sequences

/-! ### Texts -/

section Texts

variable {text stored : String}

/-- What the entities and the schema ask of an email and of a title. -/
def Fits (text : String) : Prop := notBlank text = true ∧ text.utf8ByteSize ≤ kMaxLength

/-- What is asked of a request. -/
structure Request.WellFormed (request : Request) : Prop where
  email : Fits request.email
  title : Fits request.title
  description : ∀ text ∈ request.description, text.utf8ByteSize ≤ kMaxLength

theorem varchar_of_fits {limit : ℕ} (h : text.utf8ByteSize ≤ limit) :
    varchar limit text = .ok text :=
  if_pos ((length_le_utf8ByteSize text).trans h)

theorem mapM_varchar_of_fits {description : Option String}
    (h : ∀ text ∈ description, text.utf8ByteSize ≤ kMaxLength) :
    description.mapM (varchar 255) = .ok description := by
  cases description with
  | none => rfl
  | some text =>
    rw [Option.mapM_some, varchar_of_fits ((h text rfl).trans (by decide))]
    rfl

/-- The status of a post is one that the schema knows. -/
theorem varchar_statusToString (status : Status) :
    varchar 20 (statusToString status) = .ok (statusToString status) := by
  cases status <;> rfl

theorem statusToString_mem (status : Status) :
    statusToString status ∈ ["draft", "published", "archived"] := by
  cases status <;> decide

theorem stringToStatus_statusToString (status : Status) :
    stringToStatus (statusToString status) = .ok status := by
  cases status <;> rfl

theorem Fits.size_ne_zero (h : Fits text) : text.utf8ByteSize ≠ 0 := by
  intro hzero
  have hlength := length_le_utf8ByteSize text
  rw [hzero, Nat.le_zero_eq, ← String.length_toList, List.length_eq_zero_iff] at hlength
  have hblank := h.1
  rw [notBlank, hlength] at hblank
  cases hblank

theorem Fits.ne_empty (h : Fits text) : text ≠ "" := by
  rintro rfl
  exact h.size_ne_zero rfl

/-- An email that fits and is new is inserted. -/
theorem insertUser_of_fits {view : Tables} {nextUserId nextPostId : Int} {date email : String}
    (hbelow : view.Below nextUserId nextPostId) (hemail : Fits email)
    (hnew : email ∉ view.users.map (·.email)) :
    view.insertUser nextUserId date email = .ok (some ⟨nextUserId, email, date⟩,
      { view with users := view.users ++ [⟨nextUserId, email, date⟩] }) := by
  unfold Tables.insertUser
  rw [varchar_of_fits (hemail.2.trans (by decide))]
  simp only [bind, Except.bind, pure, Except.pure]
  rw [if_neg (by rw [hemail.1]; exact nofun), if_neg, if_neg]
  · simp only [List.any_eq_true, decide_eq_true_eq, not_exists, not_and]
    exact fun user hmem ↦ (hbelow.users user hmem).ne
  · simpa using hnew

/-- A post whose texts fit is inserted, if its author is there. -/
theorem insertPost_of_fits {view : Tables} {nextUserId nextPostId : Int} {date title : String}
    {description : Option String} {status : Status} {authorId : Option Int}
    (hbelow : view.Below nextUserId nextPostId) (htitle : Fits title)
    (hdescription : ∀ text ∈ description, text.utf8ByteSize ≤ kMaxLength)
    (hauthor : ∀ author ∈ authorId, ∃ user ∈ view.users, user.id = author) :
    view.insertPost nextPostId date title description (statusToString status) authorId =
      .ok (⟨nextPostId, title, description, date, statusToString status, authorId⟩,
        { view with posts := view.posts ++
          [⟨nextPostId, title, description, date, statusToString status, authorId⟩] }) := by
  unfold Tables.insertPost
  rw [varchar_of_fits (htitle.2.trans (by decide)), mapM_varchar_of_fits hdescription,
    varchar_statusToString]
  simp only [bind, Except.bind, pure, Except.pure]
  rw [if_neg (not_not.mpr (statusToString_mem status)), if_neg (by rw [htitle.1]; exact nofun),
    if_neg, if_neg]
  · cases authorId with
    | none => exact Bool.false_ne_true
    | some author => simpa using hauthor author rfl
  · simp only [List.any_eq_true, decide_eq_true_eq, not_exists, not_and]
    exact fun post hmem ↦ (hbelow.posts post hmem).ne

end Texts

/-! ### The statements -/

section Statements

open UnitOfWork

variable {uow c : ℕ} {base w : World} {view : Tables} {email title : String}
  {description : Option String} {status : Status} {authorId : Option Int}

/-- A user that was made has an email that fits and that was new. -/
theorem Active.createUser_some (h : Active uow c base view w) :
    Meets (Dbms.createUser ⟨c, base.begun⟩ email)
      (fun result _ ↦ result ≠ none → Fits email ∧ email ∉ view.users.map (·.email))
      (fun _ _ ↦ True) w := by
  have hinsert : Meets (insertUser ⟨c, base.begun⟩ email) _ (Throws (Active uow c base view)) w :=
    h.execInsert fun _ ↦ ⟨rfl, rfl, rfl⟩
  refine .bind (hinsert.mono (fun _ _ ↦ id) fun _ _ _ ↦ trivial) ?_
  rintro result w₁ ⟨connection, transaction, view', rfl, hstatement, h₁⟩
  obtain ⟨stored, hemail, hblank, ⟨rfl, -⟩ | ⟨rfl, -, hnew, -⟩⟩ := insertUser_eq_ok hstatement
  · exact .of_ok rfl fun hne ↦ absurd rfl hne
  · refine .bind ((h₁.parseUser _).mono (fun _ _ ↦ id) fun _ _ _ ↦ trivial) ?_
    rintro user w₂ ⟨hmake, -⟩
    have hsize := user.email_le
    rw [(User.make_ok hmake).2] at hsize
    have hsame := varchar_eq hemail hsize
    rw [hsame] at hblank hnew hsize
    exact .of_ok rfl fun _ ↦ ⟨⟨hblank, hsize⟩, hnew⟩

/-- A post that was made has texts that fit. -/
theorem Active.createPost_ok (h : Active uow c base view w) :
    Meets (Dbms.createPost ⟨c, base.begun⟩ title description status authorId)
      (fun _ _ ↦ Fits title ∧ ∀ text ∈ description, text.utf8ByteSize ≤ kMaxLength)
      (fun _ _ ↦ True) w := by
  have hinsert : Meets (insertPost ⟨c, base.begun⟩ title description status authorId) _
      (Throws (Active uow c base view)) w := h.execInsert fun _ ↦ ⟨rfl, rfl, rfl⟩
  refine .bind (hinsert.mono (fun _ _ ↦ id) fun _ _ _ ↦ trivial) ?_
  rintro row w₁ ⟨connection, transaction, view', -, hstatement, h₁⟩
  obtain ⟨title', description', status', htitle, hdescription, -, rfl, -, -, hblank, -⟩ :=
    insertPost_eq_ok hstatement
  refine (h₁.parsePost _).mono ?_ fun _ _ _ ↦ trivial
  rintro post w₂ ⟨⟨status'', hmake⟩, -⟩
  have hsame : post.title = title' ∧ post.description = description' := Post.make_ok hmake
  have hsize := post.title_le
  have hsizes := post.description_le
  rw [hsame.1] at hsize
  rw [hsame.2] at hsizes
  rw [varchar_eq htitle hsize] at hblank hsize
  rw [mapM_varchar_eq hdescription hsizes] at hsizes
  exact ⟨⟨hblank, hsize⟩, hsizes⟩

/-- An `INSERT` that is not rejected. -/
theorem Active.execInsert_ok {α : Type} {nextval : Connection → Connection}
    {statement : Connection → OpenWork → Except String (α × Tables)} {returns : α → World → Prop}
    (h : Active uow c base view w) (hquiet : Quiet c w)
    (hnextval : ∀ connection, (nextval connection).tables = connection.tables ∧
      (nextval connection).isOpen = connection.isOpen ∧
        (nextval connection).work = connection.work)
    (haccepts : ∀ connection transaction, transaction.view = view →
      view.Below connection.nextUserId connection.nextPostId →
        transaction.now.utf8ByteSize ≤ kMaxLength → ∃ result view',
          statement connection transaction = .ok (result, view') ∧
            ∀ w', Active uow c base view' w' → returns result w') :
    Meets (Dbms.execInsert ⟨c, base.begun⟩ nextval statement) returns (fun _ _ ↦ False) w := by
  obtain ⟨hidle, u, k, transaction, ⟨heffect, htables, hopen⟩, hactive, htxn, huser, hpost, hwork,
    hnumber, hview⟩ := h
  obtain ⟨hsame, hsame', -⟩ := hnextval k
  obtain ⟨hbelow, hnow⟩ := hquiet.ahead.view transaction (heffect.connection ▸ hwork)
  rw [heffect.connection, hview] at hbelow
  obtain ⟨result, view', hstatement, hreturns⟩ := haccepts k transaction hview hbelow hnow
  have hopen? : w.called.open? ⟨c, base.begun⟩ = some transaction := by
    simp [World.open?, World.called, heffect.connection, hwork, hnumber]
  have hconnection : w.called.connections c = k := heffect.connection
  unfold Dbms.execInsert
  refine .of_step (bind_ok (call_ok (hquiet.silent _))) (.of_step (bind_ok (get_apply _)) ?_)
  simp only [hopen?, hconnection, hstatement]
  refine .of_ok (bind_ok (set_apply _ _)) (hreturns _ ?_)
  exact ⟨hidle, u, _, _, ⟨heffect.called.setConnection _, hsame.trans htables, hsame'.trans hopen⟩,
    hactive, htxn, huser, hpost, rfl, hnumber, rfl⟩

theorem Active.failures (h : Active uow c base view w) : w.failures = base.failures := by
  obtain ⟨-, u, k, transaction, hsession, -⟩ := h
  exact hsession.effect.failures

/-- An email that fits and is new gives a user. -/
theorem Active.createUser_of_fits (h : Active uow c base view w) (hquiet : Quiet c w)
    (hemail : Fits email) (hnew : email ∉ view.users.map (·.email)) :
    Meets (Dbms.createUser ⟨c, base.begun⟩ email) (fun result w' ↦ ∃ user row,
      result = some user ∧ row.id = user.id ∧
        Active uow c base { view with users := view.users ++ [row] } w') (fun _ _ ↦ False) w := by
  have hinsert : Meets (insertUser ⟨c, base.begun⟩ email) (fun result w' ↦ ∃ user row,
      result = some row ∧ User.make row.id row.email row.date = .ok user ∧
        Active uow c base { view with users := view.users ++ [row] } w') (fun _ _ ↦ False) w := by
    refine h.execInsert_ok hquiet (fun _ ↦ ⟨rfl, rfl, rfl⟩) fun k transaction hview hbelow hnow ↦ ?_
    have hmake : ∃ user, User.make k.nextUserId email transaction.now = .ok user := by
      unfold User.make
      rw [dif_neg (not_lt.mpr hbelow.userId), dif_neg, dif_neg (not_lt.mpr hnow)]
      · exact ⟨_, rfl⟩
      · exact not_or.mpr ⟨not_lt.mpr hemail.2, hemail.size_ne_zero⟩
    obtain ⟨user, hmake⟩ := hmake
    refine ⟨some ⟨k.nextUserId, email, transaction.now⟩, _, ?_, fun w' hactive ↦
      ⟨user, _, rfl, hmake, hactive⟩⟩
    rw [hview]
    exact insertUser_of_fits hbelow hemail hnew
  refine .bind hinsert ?_
  rintro result w₁ ⟨user, row, rfl, hmake, h₁⟩
  have hcall : w₁.failures w₁.calls = none := by
    rw [h₁.failures, ← h.failures, hquiet.silent]
  refine .of_ok (bind_ok ((bind_ok (call_ok hcall)).trans ?_)) ⟨user, row, rfl, ?_, h₁.called⟩
  · rw [hmake]
    rfl
  · exact (User.make_ok hmake).1.symm

/-- Texts that fit give a post, by an author who is there. -/
theorem Active.createPost_of_fits (h : Active uow c base view w) (hquiet : Quiet c w)
    (htitle : Fits title) (hdescription : ∀ text ∈ description, text.utf8ByteSize ≤ kMaxLength)
    (hauthor : ∀ author ∈ authorId, 0 ≤ author ∧ ∃ user ∈ view.users, user.id = author) :
    Meets (Dbms.createPost ⟨c, base.begun⟩ title description status authorId)
      (fun _ w' ↦ ∃ view', Active uow c base view' w') (fun _ _ ↦ False) w := by
  have hinsert : Meets (insertPost ⟨c, base.begun⟩ title description status authorId)
      (fun row w' ↦ row.status = statusToString status ∧ (∃ post, Post.make row.id row.title
        row.date status row.authorId row.description = .ok post) ∧
          ∃ view', Active uow c base view' w') (fun _ _ ↦ False) w := by
    refine h.execInsert_ok hquiet (fun _ ↦ ⟨rfl, rfl, rfl⟩) fun k transaction hview hbelow hnow ↦ ?_
    have hmake : ∃ post, Post.make k.nextPostId title transaction.now status authorId description =
        .ok post := by
      unfold Post.make
      rw [dif_neg (not_lt.mpr hbelow.postId), dif_neg (not_lt.mpr htitle.2),
        dif_neg htitle.size_ne_zero, dif_neg (not_lt.mpr hnow), dif_neg, dif_neg]
      · exact ⟨_, rfl⟩
      · rintro ⟨text, hmem, hlt⟩
        exact absurd (hdescription text hmem) (not_le.mpr hlt)
      · rintro ⟨author, hmem, hlt⟩
        exact absurd (hauthor author hmem).1 (not_le.mpr hlt)
    have hstatement : view.insertPost k.nextPostId transaction.now title description
        (statusToString status) authorId = .ok _ :=
      insertPost_of_fits hbelow htitle hdescription fun author hmem ↦ (hauthor author hmem).2
    rw [← hview] at hstatement
    exact ⟨_, _, hstatement, fun w' hactive ↦ ⟨rfl, hmake, _, hactive⟩⟩
  refine .bind hinsert ?_
  rintro row w₁ ⟨hstatus, ⟨post, hmake⟩, view', h₁⟩
  have hcall : w₁.failures w₁.calls = none := by
    rw [h₁.failures, ← h.failures, hquiet.silent]
  have hparse : Dbms.parsePost row w₁ = .ok post w₁.called := by
    unfold Dbms.parsePost
    rw [bind_ok (call_ok hcall), hstatus, stringToStatus_statusToString]
    refine (bind_ok rfl).trans ?_
    rw [hmake]
    rfl
  exact .of_ok hparse ⟨view', h₁.called⟩

theorem Active.commit_returns (h : Active uow c base view w)
    (hsilent : ∀ index, w.failures index = none) : ∃ w', UnitOfWork.commit uow w = .ok () w' := by
  obtain ⟨-, u, k, transaction, ⟨heffect, -, -⟩, hactive, htxn, -, -, hwork, hnumber, -⟩ := h
  rw [← hnumber] at htxn
  exact GetUserTagsFromComments.commit_returns heffect.unit hactive htxn
    (heffect.connection ▸ hwork) (hsilent _)

end Statements

/-! ### `Execute` -/

section Execute

open UnitOfWork

variable {uow c : ℕ} {base w : World} {u : UnitOfWork} {request : Request}

/-- The request is well formed and its email is new. -/
def Admissible (request : Request) (tables : Tables) : Prop :=
  request.WellFormed ∧ request.email ∉ tables.users.map (·.email)

theorem createBoth_admissible (hcell : base.units.cell uow = some u) (hactive : u.isActive = false)
    (hconn : u.conn = some c) (htxn : u.txn = none) : Meets (createBoth uow request)
      (fun response _ ↦ response.success = true →
        Admissible request (base.connections c).tables) (Throws fun _ ↦ True) base := by
  have hstops {stop : Stop} {w : World} {after : World → Prop} (h : Throws after stop w) :
      Throws (fun _ ↦ True) stop w := ⟨h.1, trivial⟩
  refine .bind ((begin_active_or_owned hcell hactive hconn htxn).mono (fun _ _ ↦ id)
    fun _ _ ↦ hstops) fun _ w₁ h₁ ↦ .of_step (bind_ok h₁.users) ?_
  have huser := (h₁.createUser request.email).and h₁.createUser_some
  refine .bind (huser.mono (fun _ _ ↦ id) fun _ _ hstop ↦ hstops hstop.1) ?_
  rintro result w₂ ⟨⟨rfl, h₂⟩ | ⟨user, row, rfl, -, -, h₂⟩, hemail⟩
  · exact .bind (h₂.owned.rollback.mono (fun _ _ ↦ id) fun _ _ ↦ hstops) fun _ _ _ ↦
      .of_ok rfl fun hsuccess ↦ Bool.noConfusion hsuccess
  · obtain ⟨hemail, hnew⟩ := hemail (Option.some_ne_none user)
    have hpost := (h₂.createPost request.title request.description request.status
      (some user.id)).and h₂.createPost_ok
    refine .of_step (bind_ok h₂.posts) (.bind (hpost.mono (fun _ _ ↦ id)
      fun _ _ hstop ↦ hstops hstop.1) ?_)
    rintro post w₃ ⟨⟨row', -, -, -, -, h₃⟩, htitle, hdescription⟩
    exact .bind (h₃.commit.mono (fun _ _ ↦ id) fun _ _ ↦ hstops) fun _ _ _ ↦
      .of_ok rfl fun _ ↦ ⟨⟨hemail, htitle, hdescription⟩, hnew⟩

/-- Without failures, an admissible request is done. -/
theorem createBoth_returns (hcell : base.units.cell uow = some u) (hactive : u.isActive = false)
    (hconn : u.conn = some c) (htxn : u.txn = none) (hidle : (base.connections c).work = none)
    (hquiet : Quiet c base) (hadmissible : Admissible request (base.connections c).tables) :
    Meets (createBoth uow request) (fun response _ ↦ response.success = true)
      (fun _ _ ↦ False) base := by
  obtain ⟨w₁, hbegin⟩ := begin_returns hcell hactive hconn htxn hidle hquiet.silent
  have h₁ := (begin_active_or_owned hcell hactive hconn htxn).ok hbegin
  have hquiet₁ : Quiet c w₁ := ((stable_quiet c).begin base hquiet).ok hbegin
  refine .of_step ((bind_ok hbegin).trans (bind_ok h₁.users)) ?_
  have huser := (h₁.createUser_of_fits hquiet₁ hadmissible.1.email hadmissible.2).and
    ((stable_quiet c).createUser ⟨c, base.begun⟩ request.email w₁ hquiet₁)
  refine .bind (huser.mono (fun _ _ ↦ id) fun _ _ hstop ↦ hstop.1) ?_
  rintro result w₂ ⟨⟨user, row, rfl, hid, h₂⟩, hquiet₂⟩
  have hauthor : ∀ author ∈ some user.id, 0 ≤ author ∧
      ∃ other ∈ (base.connections c).tables.users ++ [row], other.id = author := by
    intro author hmem
    obtain rfl := Option.mem_some_iff.mp hmem
    exact ⟨user.id_nonneg, row, List.mem_append_right _ (List.mem_singleton_self row), hid⟩
  have hreturns : Meets (createPost ⟨c, base.begun⟩ request.title request.description request.status
      (some user.id)) _ _ w₂ :=
    h₂.createPost_of_fits hquiet₂ hadmissible.1.title hadmissible.1.description hauthor
  have hpost := hreturns.and ((stable_quiet c).createPost ⟨c, base.begun⟩ _ _ _ _ w₂ hquiet₂)
  refine .of_step (bind_ok h₂.posts) (.bind (hpost.mono (fun _ _ ↦ id) fun _ _ hstop ↦ hstop.1) ?_)
  rintro post w₃ ⟨⟨view, h₃⟩, hquiet₃⟩
  obtain ⟨w₄, hcommit⟩ := h₃.commit_returns hquiet₃.silent
  exact .of_ok (bind_ok hcommit) rfl

/-- What holds of every response of the steps inside the `try` and of every error holds of the
response of `Execute`. -/
theorem execute_response {allocator : Allocator} {property : Response → Prop}
    (hopen : (w.connections c).isOpen = true) (hemail : request.email ≠ "")
    (htitle : request.title ≠ "")
    (hboth : ∀ uow base, base.units.cell uow = some (.fresh (some c)) →
      base.connections = w.connections → base.failures = w.failures → base.clock = w.clock →
        Meets (createBoth uow request) (fun response _ ↦ property response)
          (Throws fun _ ↦ ∀ error, property (.ofError error)) base) :
    Meets (execute allocator c request) (fun response _ ↦ property response)
      (fun _ _ ↦ True) w := by
  have htrivial {α : Type} (program : DbM α) (w : World) :
      Meets program (fun _ _ ↦ True) (fun _ _ ↦ True) w := by
    unfold Meets
    cases program w <;> trivial
  unfold execute
  rw [if_neg hemail, if_neg htitle]
  refine .of_step (bind_ok (create_apply allocator hopen)) ?_
  refine .bind (Meets.catchException (hboth _ _ (cell_setUnit ..) rfl rfl rfl) ?_) ?_
  · exact fun what w' herror ↦ .bind (htrivial _ _) fun _ _ _ ↦ .of_ok rfl (herror _)
  · exact fun response w' hresponse ↦ .bind (htrivial _ _) fun _ _ _ ↦ .of_ok rfl hresponse

/-- A request that was done was admissible. -/
theorem execute_admissible (allocator : Allocator) (request : Request)
    (hopen : (w.connections c).isOpen = true) : Meets (execute allocator c request)
      (fun response _ ↦ response.success = true → Admissible request (w.connections c).tables)
      (fun _ _ ↦ True) w := by
  have hrefused (error : String) : (Response.ofError error).success = true →
      Admissible request (w.connections c).tables := fun hsuccess ↦ Bool.noConfusion hsuccess
  refine meets_execute hrefused fun hemail htitle ↦ ?_
  refine execute_response hopen hemail htitle fun uow base hcell hconnections _ _ ↦ ?_
  rw [← hconnections]
  exact (createBoth_admissible hcell rfl rfl rfl).mono (fun _ _ ↦ id)
    fun _ _ hstop ↦ ⟨hstop.1, fun error hsuccess ↦ Bool.noConfusion hsuccess⟩

/-- Without failures, an admissible request is done. -/
theorem execute_done (allocator : Allocator) (hopen : (w.connections c).isOpen = true)
    (hidle : (w.connections c).work = none) (hquiet : Quiet c w)
    (hadmissible : Admissible request (w.connections c).tables) :
    Meets (execute allocator c request) (fun response _ ↦ response.success = true)
      (fun _ _ ↦ True) w := by
  refine execute_response hopen hadmissible.1.email.ne_empty hadmissible.1.title.ne_empty
    fun uow base hcell hconnections hfailures hclock ↦ ?_
  rw [← hconnections] at hidle hadmissible
  have hbase : Quiet c base := by
    refine ⟨fun index ↦ ?_, fun number ↦ ?_, ?_⟩
    · rw [hfailures, hquiet.silent]
    · rw [hclock]
      exact hquiet.clock number
    · rw [hconnections]
      exact hquiet.ahead
  exact (createBoth_returns hcell rfl rfl rfl hidle hbase hadmissible).mono (fun _ _ ↦ id)
    fun _ _ ↦ False.elim

end Execute

/-! ### Runs -/

section Runs

instance (text : String) : Decidable (Fits text) := inferInstanceAs (Decidable (_ ∧ _))

instance (request : Request) : Decidable request.WellFormed :=
  decidable_of_iff (Fits request.email ∧ Fits request.title ∧
    ∀ text ∈ request.description, text.utf8ByteSize ≤ kMaxLength)
    ⟨fun h ↦ ⟨h.1, h.2.1, h.2.2⟩, fun h ↦ ⟨h.email, h.title, h.description⟩⟩

/-- The requests that are done one after another, where some emails are there already. -/
def admitted (emails : List String) : List Request → List Request
  | [] => []
  | request :: requests =>
    if request.WellFormed ∧ request.email ∉ emails then
      request :: admitted (emails ++ [request.email]) requests
    else
      admitted emails requests

/-- The request of a use case that has one. -/
def Turn.request (turn : Turn) : Option Request :=
  match turn.useCase with
  | .getUserTagsFromComments => none
  | .createUserWithPost request => some request

variable {collation : Option (List Char) → Option (List Char) → Bool} {forum : Forum}
  {allocator : Allocator} {c : ℕ} {w : World}

theorem admitted_append (emails : List String) (requests requests' : List Request) :
    admitted emails (requests ++ requests') = admitted emails requests ++
      admitted (emails ++ (admitted emails requests).map (·.email)) requests' := by
  induction requests generalizing emails with
  | nil => rw [admitted, List.map_nil, List.append_nil, List.nil_append, List.nil_append]
  | cons request requests ih =>
    rw [List.cons_append, admitted, admitted]
    split_ifs
    · rw [ih, List.cons_append, List.map_cons, List.append_assoc, List.singleton_append]
    · exact ih emails

/-- One use case, when nothing fails. -/
theorem Turn.run_admits (turn : Turn) (hopen : (w.connections c).isOpen = true)
    (hidle : (w.connections c).work = none)
    (hclock : ∀ number, (w.clock number).utf8ByteSize ≤ kMaxLength)
    (hahead : (w.connections c).Ahead) (hsilent : ∀ index, turn.failures index = none) :
    Meets (turn.run collation forum allocator c) (fun done w' ↦
      done.toList = admitted ((w.connections c).tables.users.map (·.email)) turn.request.toList ∧
        Quiet c w') (fun _ _ ↦ True) w := by
  obtain ⟨useCase, failures⟩ := turn
  have hquiet : Quiet c (w.prepared failures) := ⟨hsilent, hclock, hahead⟩
  refine .of_step (bind_ok (modify_apply _ w)) ?_
  cases useCase with
  | getUserTagsFromComments =>
    have htags := (stable_quiet c).executeTags collation forum allocator c _ hquiet
    exact .bind (htags.mono (fun _ _ ↦ id) fun _ _ _ ↦ trivial) fun _ w' h ↦ .of_ok rfl ⟨rfl, h⟩
  | createUserWithPost request =>
    have hdone : Meets (execute allocator c request) (fun response _ ↦ response.success = true ↔
        Admissible request (w.connections c).tables) (fun _ _ ↦ True) (w.prepared failures) := by
      by_cases hadmissible : Admissible request (w.connections c).tables
      · refine Meets.mono ?_ (fun _ _ hsuccess ↦ iff_of_true hsuccess hadmissible) fun _ _ ↦ id
        exact execute_done allocator hopen hidle hquiet hadmissible
      · exact (execute_admissible (w := w.prepared failures) allocator request hopen).mono
          (fun _ _ hsuccess ↦ iff_of_false (mt hsuccess hadmissible) hadmissible) fun _ _ ↦ id
    have hkeeps := (stable_quiet c).execute allocator c request _ hquiet
    refine .bind ((hdone.and hkeeps).mono (fun _ _ ↦ id) fun _ _ _ ↦ trivial) ?_
    rintro response w' ⟨hiff, hquiet'⟩
    refine .of_ok rfl ⟨?_, hquiet'⟩
    by_cases hadmissible : Admissible request (w.connections c).tables
    · rw [if_pos (hiff.mpr hadmissible)]
      exact (if_pos hadmissible).symm
    · rw [if_neg (mt hiff.mp hadmissible)]
      exact (if_neg hadmissible).symm

end Runs

end StudStuff.Dbms
