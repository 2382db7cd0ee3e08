import StudStuff.Dbms.Datagen

/-!
# What is generated

Whatever `random` and Faker answer, `generate_all_data` writes the files of a `Dataset` that is
`Sound`: the rows of each table are numbered from one without gaps, emails, tags and pairs are not
repeated, references lead to rows that exist, and texts come from Faker. Two of its loops draw until
they get something new. They end if Faker knows enough emails and tags, and otherwise they never do
(`generateAllData_returns`).
-/

set_option autoImplicit false
set_option relaxedAutoImplicit false

namespace StudStuff.Dbms

open Lib Lib.Csv

/-! ### Sound data -/

section Data

/-- The rows that are written. -/
structure Dataset where
  users : List UserRow
  posts : List PostRow
  tags : List TagRow
  comments : List CommentRow
  postTags : List PostTagRow
  deriving DecidableEq, Repr

def Dataset.files (data : Dataset) : Files where
  users := writeRows (data.users.map UserRow.cells)
  posts := writeRows (data.posts.map PostRow.cells)
  tags := writeRows (data.tags.map TagRow.cells)
  comments := writeRows (data.comments.map CommentRow.cells)
  postTags := writeRows (data.postTags.map PostTagRow.cells)

namespace Source

variable (source : Source)

/-- Faker may answer this. -/
def Says (call : FakerCall) (text : String) : Prop := ∃ drawn, source.text call drawn = text

/-- The text of a time from Faker. -/
def Dates (date : String) : Prop :=
  ∃ startDate drawn, (source.time startDate drawn).strftime = date

/-- From every draw on there comes an email or a tag that is none of those in use, while these are
fewer than what is to be generated. The listed tags are in use from the start. -/
structure Varied (config : Config) : Prop where
  emails : ∀ used : List String, used.length < config.numUsers → ∀ drawn, ∃ later, drawn ≤ later ∧
    source.text .email later ∉ used
  tags : ∀ used : List String, tagCategories.flatten ⊆ used → used.length < config.numTags →
    ∀ drawn, ∃ later, drawn ≤ later ∧ source.capitalize (source.text .word later) ∉ used ∧
      2 < (source.capitalize (source.text .word later)).length

/-- All emails and all tags that Faker can come up with. Each of them comes again and again. -/
structure Vocabulary (emails tags : List String) : Prop where
  email : ∀ drawn, source.text .email drawn ∈ emails
  emailRecurs : ∀ email ∈ emails, ∀ drawn, ∃ later, drawn ≤ later ∧
    source.text .email later = email
  tag : ∀ drawn, 2 < (source.capitalize (source.text .word drawn)).length →
    source.capitalize (source.text .word drawn) ∈ tags
  tagRecurs : ∀ tag ∈ tags, 2 < tag.length ∧ ∀ drawn, ∃ later, drawn ≤ later ∧
    source.capitalize (source.text .word later) = tag

end Source

/-- There are as many emails and tags as are to be generated. -/
def Config.Enough (config : Config) (emails tags : List String) : Prop :=
  config.numUsers ≤ emails.dedup.length ∧
    config.numTags ≤ (tagCategories.flatten ++ tags).dedup.length

variable (source : Source) (config : Config)

/-- A post that `generate_posts` may write. -/
structure PostRow.Sound (post : PostRow) : Prop where
  title : ∃ nbWords sentence, source.Says (.sentence nbWords) sentence ∧
    post.title = rstripDots sentence
  description : ∀ text ∈ post.description, ∃ nbSentences, source.Says (.paragraph nbSentences) text
  date : source.Dates post.date
  status : post.status ∈ STATUSES
  author : ∀ authorId ∈ post.authorId, authorId ∈ rangeFromOne config.numUsers

/-- A comment in the file in the end, with a text of Faker or the predefined one. Reading the file
has turned all newlines into `\n`. -/
structure CommentRow.Sound (comment : CommentRow) : Prop where
  content : ∃ text, (source.Says (.text 250) text ∨ text = MY_COMMENT) ∧
    comment.content = String.ofList (universalNewlines text.toList)
  date : source.Dates comment.date
  author : ∀ authorId ∈ comment.authorId, authorId ∈ rangeFromOne config.numUsers
  post : comment.postId ∈ rangeFromOne config.numPosts

/-- The name of a tag. -/
def TagSound (tag : String) : Prop :=
  tag ∈ tagCategories.flatten ∨
    ∃ word, source.Says .word word ∧ source.capitalize word = tag ∧ 2 < tag.length

/-- The numbers, the uniqueness and the references that the generator sees to. -/
structure Dataset.Sound (data : Dataset) : Prop where
  userIds : data.users.map (·.id) = rangeFromOne config.numUsers
  emails : (data.users.map (·.email)).Nodup
  users : ∀ user ∈ data.users, source.Says .email user.email ∧ source.Dates user.date
  postIds : data.posts.map (·.id) = rangeFromOne config.numPosts
  posts : ∀ post ∈ data.posts, post.Sound source config
  tagIds : data.tags.map (·.id) = rangeFromOne config.numTags
  tagNames : (data.tags.map (·.name)).Nodup
  tags : ∀ tag ∈ data.tags, TagSound source (String.ofList tag.name)
  commentIds : data.comments.map (·.id) = rangeFromOne (max config.numComments 0 + 1)
  comments : ∀ comment ∈ data.comments, comment.Sound source config
  mine : ∃ comment ∈ data.comments, comment.id = max config.numComments 0 + 1 ∧
    comment.content = MY_COMMENT ∧ comment.authorId.isSome
  postTagIds : data.postTags.map (·.id) = rangeFromOne data.postTags.length
  pairs : (data.postTags.map fun row ↦ (row.postId, row.tagId)).Nodup
  postTags : ∀ row ∈ data.postTags,
    row.postId ∈ rangeFromOne config.numPosts ∧ row.tagId ∈ rangeFromOne config.numTags
  count : data.postTags.length ≤ max 1 config.numPostTags
  reached : config.numPosts ≤ data.postTags.length ∨ config.numPostTags ≤ data.postTags.length

end Data

/-! ### Ranges -/

section Ranges

variable {count number : Int}

theorem mem_rangeFromOne : number ∈ rangeFromOne count ↔ 1 ≤ number ∧ number ≤ count := by
  simp only [rangeFromOne, List.mem_map, List.mem_range]
  constructor
  · rintro ⟨index, hindex, rfl⟩
    omega
  · rintro ⟨hpos, hle⟩
    exact ⟨(number - 1).toNat, by omega, by omega⟩

theorem rangeFromOne_succ (hcount : 0 ≤ count) :
    rangeFromOne (count + 1) = rangeFromOne count ++ [count + 1] := by
  have hnat : (count + 1).toNat = count.toNat + 1 := by omega
  rw [rangeFromOne, rangeFromOne, hnat, List.range_succ, List.map_append, List.map_singleton,
    Int.toNat_of_nonneg hcount]

theorem nodup_rangeFromOne : (rangeFromOne count).Nodup :=
  List.nodup_range.map fun index other (h : (index : Int) + 1 = other + 1) ↦ by omega

theorem length_rangeFromOne : (rangeFromOne count).length = count.toNat := by
  rw [rangeFromOne, List.length_map, List.length_range]

/-- Rows that are numbered as they are listed. -/
theorem mapIdx_rangeFromOne {α β : Type} (row : Int → α → β) (key : β → Int)
    (hkey : ∀ index value, key (row index value) = index) (values : List α) :
    (values.mapIdx fun index value ↦ row (index + 1) value).map key =
      rangeFromOne values.length := by
  induction values using List.reverseRecOn with
  | nil => rfl
  | append_singleton values value ih =>
    rw [List.mapIdx_append, List.map_append, ih, List.length_append, List.length_singleton,
      Int.natCast_add, Int.natCast_one, rangeFromOne_succ (Int.natCast_nonneg _)]
    simp [hkey]

theorem map_mapIdx {α β γ : Type} (row : ℕ → α → β) (observe : β → γ) (content : α → γ)
    (hrow : ∀ index value, observe (row index value) = content value) (values : List α) :
    (values.mapIdx row).map observe = values.map content := by
  refine List.ext_getElem (by simp) fun index _ _ ↦ ?_
  rw [List.getElem_map, List.getElem_mapIdx, List.getElem_map, hrow]

end Ranges

/-! ### Numbers and times as text -/

section Texts

/-- A character of a number or a time. -/
def isPlain (ch : Char) : Bool := ch.isDigit || ch = '-' || ch = ' ' || ch = ':'

theorem isPlain_toDigits (number : ℕ) : ∀ ch ∈ Nat.toDigits 10 number, isPlain ch = true := by
  intro ch hmem
  rw [isPlain, Decimal.isDigit_toDigits number ch hmem]
  rfl

theorem isPlain_str (number : Int) : ∀ ch ∈ str number, isPlain ch = true := by
  cases number with
  | ofNat number => exact isPlain_toDigits number
  | negSucc number => exact List.forall_mem_cons.mpr ⟨rfl, isPlain_toDigits _⟩

theorem isPlain_twoDigits (number : ℕ) : ∀ ch ∈ twoDigits number, isPlain ch = true := by
  unfold twoDigits
  split_ifs
  · exact List.forall_mem_cons.mpr ⟨rfl, isPlain_toDigits number⟩
  · exact isPlain_toDigits number

theorem isPlain_strftime (time : DateTime) : ∀ ch ∈ time.strftime.toList, isPlain ch = true := by
  simp only [DateTime.strftime, String.toList_ofList, List.forall_mem_append,
    List.forall_mem_cons]
  exact ⟨isPlain_toDigits _, rfl, isPlain_twoDigits _, rfl, isPlain_twoDigits _, rfl,
    isPlain_twoDigits _, rfl, isPlain_twoDigits _, rfl, isPlain_twoDigits _⟩

theorem not_mem_of_plain {text : List Char} {ch : Char} (h : ∀ ch ∈ text, isPlain ch = true)
    (hch : isPlain ch = false) : ch ∉ text := fun hmem ↦ by
  rw [h ch hmem] at hch
  cases hch

theorem isPlain_optionalCell (number : Option Int) :
    ∀ ch ∈ optionalCell str number, isPlain ch = true := by
  cases number with
  | none => exact nofun
  | some number => exact isPlain_str number

/-- A comment in which all newlines have become `\n`. -/
def CommentRow.normalize (comment : CommentRow) : CommentRow :=
  { comment with content := String.ofList (universalNewlines comment.content.toList) }

/-- Only the text of a comment can have newlines. -/
theorem CommentRow.cells_normalize {comment : CommentRow}
    (hdate : ∀ ch ∈ comment.date.toList, isPlain ch = true) :
    comment.cells.map universalNewlines = comment.normalize.cells := by
  have hkept {text : List Char} (h : ∀ ch ∈ text, isPlain ch = true) :
      universalNewlines text = text :=
    universalNewlines_of_not_mem (not_mem_of_plain h rfl)
  simp only [cells, normalize, List.map_cons, List.map_nil, hkept (isPlain_str _), hkept hdate,
    hkept (isPlain_optionalCell _), String.toList_ofList]

end Texts

/-! ### Random values -/

namespace Source

section Draws

variable {source : Source} {s : ℕ}

theorem randint_converges {low high : Int} (h : low ≤ high) :
    Converges (fun _ ↦ source.randint low high) (fun number ↦ low ≤ number ∧ number ≤ high) s := by
  unfold randint
  rw [if_neg (Int.not_lt.mpr h)]
  have hpos : 0 < high - low + 1 := by omega
  have hnonneg := Int.emod_nonneg (source.number s : Int) (Int.ne_of_gt hpos)
  have hlt := Int.emod_lt_of_pos (source.number s : Int) hpos
  exact .of_ok (fun _ ↦ rfl) ⟨by omega, by omega⟩

theorem faker_converges (call : FakerCall) :
    Converges (fun _ ↦ source.faker call) (source.Says call) s :=
  .of_ok (fun _ ↦ rfl) ⟨s, rfl⟩

theorem randomDatetime_converges {minMonths maxMonths : Int} (h : minMonths ≤ maxMonths) :
    Converges (fun _ ↦ source.randomDatetime minMonths maxMonths)
      (fun time ↦ source.Dates time.strftime) s :=
  (randint_converges h).bind fun _ s' _ ↦ .of_ok (fun _ ↦ rfl) ⟨_, s', rfl⟩

theorem choices_converges {α : Type} [Inhabited α] {population : List α} (hne : population ≠ []) :
    Converges (fun _ ↦ source.choices population) (· ∈ population) s := by
  have hlt := Nat.mod_lt (source.number s) (List.length_pos_iff.mpr hne)
  refine .of_ok (fun _ ↦ rfl) ?_
  rw [List.getD_eq_getElem?_getD, List.getElem?_eq_getElem hlt]
  exact List.getElem_mem hlt

theorem optionally_converges {α : Type} {program : GenM α} {property : α → Prop}
    (h : ∀ s, Converges (fun _ ↦ program) property s) :
    Converges (fun _ ↦ source.optionally program) (fun result ↦ ∀ value ∈ result, property value)
      s := by
  by_cases hdrawn : source.number s % 2 = 0
  · have hsome : Converges (fun _ ↦ program >>= fun value ↦ pure (some value))
        (fun result ↦ ∀ value ∈ result, property value) (s + 1) := by
      refine (h _).bind fun value _ hvalue ↦ .pure ?_
      rintro _ ⟨⟩
      exact hvalue
    exact hsome.of_step fun _ ↦ congrFun (if_pos hdrawn) (s + 1)
  · have hnone : Converges (fun _ ↦ (pure none : GenM (Option α)))
        (fun result ↦ ∀ value ∈ result, property value) (s + 1) := .pure nofun
    exact hnone.of_step fun _ ↦ congrFun (if_neg hdrawn) (s + 1)

/-- A sample and what is left are the population. -/
theorem sample_converges {α : Type} {population : List α} {k : ℕ} (h : k ≤ population.length) :
    Converges (fun _ ↦ source.sample population k)
      (fun values ↦ values.length = k ∧ ∃ rest, (values ++ rest).Perm population) s := by
  induction k generalizing population s with
  | zero => exact .pure ⟨rfl, population, .refl _⟩
  | succ k ih =>
    have hlt := Nat.mod_lt (source.number s) (Nat.lt_of_lt_of_le k.succ_pos h)
    have hrest : k ≤ (population.eraseIdx (source.number s % population.length)).length := by
      rw [List.length_eraseIdx_of_lt hlt]
      omega
    have hnext : Converges (fun _ ↦ do
        let values ← source.sample (population.eraseIdx (source.number s % population.length)) k
        return population[source.number s % population.length] :: values)
        (fun values ↦ values.length = k + 1 ∧ ∃ rest, (values ++ rest).Perm population)
        (s + 1) := by
      refine (ih hrest).bind fun values _ hvalues ↦ .pure ?_
      obtain ⟨hlength, rest, hperm⟩ := hvalues
      refine ⟨congrArg (· + 1) hlength, rest, ?_⟩
      exact (hperm.cons _).trans (List.getElem_cons_eraseIdx_perm hlt)
    exact hnext.of_step fun _ ↦ congrFun (dif_pos hlt) (s + 1)

/-- A loop that goes on to the next draw until it accepts one. -/
theorem converges_retry {α : Type} {program : ℕ → GenM α} {property : α → Prop}
    (accepted : ℕ → Prop)
    (hretry : ∀ s, ¬accepted s → ∀ fuel, program (fuel + 1) s = program fuel (s + 1))
    (haccept : ∀ s, accepted s → Converges program property s)
    (hlater : ∃ later, s ≤ later ∧ accepted later) : Converges program property s := by
  obtain ⟨later, hle, hlater⟩ := hlater
  obtain ⟨rounds, rfl⟩ := Nat.exists_eq_add_of_le hle
  induction rounds generalizing s with
  | zero => exact haccept s hlater
  | succ rounds ih =>
    by_cases hs : accepted s
    · exact haccept s hs
    · have hnext := ih (s := s + 1) (Nat.le_add_right _ _) (by rwa [Nat.add_right_comm])
      exact (hnext.of_step (hretry s hs)).of_succ

end Draws

/-! ### The loops -/

section Loops

variable {source : Source} {config : Config} {s : ℕ}

/-- The users with the first numbers. -/
structure UsersUpTo (source : Source) (count : Int) (users : List UserRow) : Prop where
  ids : users.map (·.id) = rangeFromOne count
  emails : (users.map (·.email)).Nodup
  users : ∀ user ∈ users, source.Says .email user.email ∧ source.Dates user.date

theorem UsersUpTo.length {count : Int} {users : List UserRow} (h : UsersUpTo source count users) :
    users.length = count.toNat := by
  rw [← length_rangeFromOne, ← h.ids, List.length_map]

theorem UsersUpTo.concat {userId : Int} {users : List UserRow} {email date : String}
    (h : UsersUpTo source (userId - 1) users) (hpos : 1 ≤ userId)
    (hnew : email ∉ users.map (·.email)) (hemail : source.Says .email email)
    (hdate : source.Dates date) : UsersUpTo source userId (users ++ [⟨userId, email, date⟩]) := by
  refine ⟨?_, ?_, fun user hmem ↦ ?_⟩
  · have hrange : rangeFromOne (userId - 1 + 1) = rangeFromOne (userId - 1) ++ [userId - 1 + 1] :=
      rangeFromOne_succ (by omega)
    rw [Int.sub_add_cancel] at hrange
    rw [List.map_append, h.ids, hrange, List.map_singleton]
  · exact nodup_concat h.emails fun user huser hsame ↦ hnew (List.mem_map.mpr ⟨user, huser, hsame⟩)
  · rcases List.mem_append.mp hmem with hold | hlast
    · exact h.users user hold
    · rw [List.mem_singleton.mp hlast]
      exact ⟨hemail, hdate⟩

theorem usersLoop_converges (hvaried : source.Varied config) {remaining : ℕ} {userId : Int}
    {users : List UserRow} (hremaining : userId + remaining = config.numUsers + 1)
    (hpos : 1 ≤ userId) (h : UsersUpTo source (userId - 1) users) :
    Converges
      (fun fuel ↦ source.usersLoop config.numUsers fuel userId (users.map (·.email)) users)
      (UsersUpTo source config.numUsers) s := by
  induction remaining generalizing userId users s with
  | zero =>
    have hlast : userId - 1 = config.numUsers := by omega
    have hdone : ¬userId ≤ config.numUsers := by omega
    rw [hlast] at h
    exact (Converges.of_ok (fun _ ↦ congrFun (if_neg hdone) s) h).of_succ
  | succ remaining ih =>
    have hmore : userId ≤ config.numUsers := by omega
    have hstep (s fuel : ℕ) : source.usersLoop config.numUsers (fuel + 1) userId
        (users.map (·.email)) users s = (if source.text .email s ∈ users.map (·.email) then
          source.usersLoop config.numUsers fuel userId (users.map (·.email)) users
        else do
          let createdAt ← source.randomDatetime 12 24
          source.usersLoop config.numUsers fuel (userId + 1)
            (users.map (·.email) ++ [source.text .email s])
            (users ++ [⟨userId, source.text .email s, createdAt.strftime⟩])) (s + 1) := by
      rw [usersLoop, if_pos hmore]
      rfl
    refine converges_retry (fun s ↦ source.text .email s ∉ users.map (·.email))
      (fun s hused fuel ↦ ?_) (fun s hnew ↦ ?_) (hvaried.emails _ ?_ s)
    · rw [hstep, if_pos (not_not.mp hused)]
    · have hrest : Converges (fun fuel ↦ do
          let createdAt ← source.randomDatetime 12 24
          source.usersLoop config.numUsers fuel (userId + 1)
            (users.map (·.email) ++ [source.text .email s])
            (users ++ [⟨userId, source.text .email s, createdAt.strftime⟩]))
          (UsersUpTo source config.numUsers) (s + 1) := by
        refine (randomDatetime_converges (by decide)).bind fun createdAt s' hdate ↦ ?_
        have hsound : UsersUpTo source (userId + 1 - 1)
            (users ++ [⟨userId, source.text .email s, createdAt.strftime⟩]) := by
          rw [Int.add_sub_cancel]
          exact h.concat hpos hnew ⟨s, rfl⟩ hdate
        have hnext := ih (s := s') (by omega) (by omega) hsound
        rwa [List.map_append] at hnext
      exact (hrest.of_step fun fuel ↦ (hstep s fuel).trans (congrFun (if_neg hnew) (s + 1))).of_succ
    · rw [List.length_map, h.length]
      omega

theorem description_converges : Converges
    (fun _ ↦ source.optionally do
      let nbSentences ← source.randint 1 3
      source.faker (.paragraph nbSentences))
    (fun description ↦ ∀ text ∈ description, ∃ nbSentences,
      source.Says (.paragraph nbSentences) text) s := by
  refine optionally_converges fun s ↦ (randint_converges (by decide)).bind fun nbSentences _ _ ↦ ?_
  exact (faker_converges _).mono fun _ hparagraph ↦ ⟨nbSentences, hparagraph⟩

theorem generatePost_converges (husers : 1 ≤ config.numUsers) (postId : Int) :
    Converges (fun _ ↦ source.generatePost config.numUsers postId)
      (fun post ↦ post.id = postId ∧ post.Sound source config) s := by
  unfold generatePost
  refine (randint_converges (by decide)).bind fun nbWords _ _ ↦ ?_
  refine (faker_converges _).bind fun sentence _ hsentence ↦ ?_
  refine description_converges.bind fun description _ hdescription ↦ ?_
  refine (randomDatetime_converges (by decide)).bind fun createdAt _ hdate ↦ ?_
  refine (choices_converges (by decide)).bind fun status _ hstatus ↦ ?_
  refine (optionally_converges fun _ ↦ randint_converges husers).bind fun authorId _ hauthor ↦ ?_
  exact .pure ⟨rfl, ⟨nbWords, sentence, hsentence, rfl⟩, hdescription, hdate, hstatus,
    fun author hmem ↦ mem_rangeFromOne.mpr (hauthor author hmem)⟩

/-- A comment before the file is read. -/
structure Commented (source : Source) (config : Config) (comment : CommentRow) : Prop where
  content : source.Says (.text 250) comment.content
  date : source.Dates comment.date
  author : ∀ authorId ∈ comment.authorId, authorId ∈ rangeFromOne config.numUsers
  post : comment.postId ∈ rangeFromOne config.numPosts

theorem generateComment_converges (husers : 1 ≤ config.numUsers) (hposts : 1 ≤ config.numPosts)
    (commentId : Int) :
    Converges (fun _ ↦ source.generateComment config.numUsers config.numPosts commentId)
      (fun comment ↦ comment.id = commentId ∧ Commented source config comment) s := by
  unfold generateComment
  refine (faker_converges _).bind fun content _ hcontent ↦ ?_
  refine (randomDatetime_converges (by decide)).bind fun createdAt _ hdate ↦ ?_
  refine (optionally_converges fun _ ↦ randint_converges husers).bind fun authorId _ hauthor ↦ ?_
  refine (randint_converges hposts).bind fun postId _ hpost ↦ ?_
  exact .pure ⟨rfl, hcontent, hdate, fun author hmem ↦ mem_rangeFromOne.mpr (hauthor author hmem),
    mem_rangeFromOne.mpr hpost⟩

/-- The tags that are made up bring the list up to the count. -/
structure TagsUpTo (source : Source) (allTags generatedTags : List String) : Prop where
  nodup : (allTags ++ generatedTags).Nodup
  generated : ∀ tag ∈ generatedTags, TagSound source tag

theorem TagsUpTo.concat {allTags generatedTags : List String} {word : String}
    (h : TagsUpTo source allTags generatedTags) (hword : source.Says .word word)
    (hnew : source.capitalize word ∉ allTags ++ generatedTags)
    (hlength : 2 < (source.capitalize word).length) :
    TagsUpTo source allTags (generatedTags ++ [source.capitalize word]) := by
  refine ⟨?_, fun tag hmem ↦ ?_⟩
  · rw [← List.append_assoc]
    refine List.nodup_append.mpr ⟨h.nodup, List.nodup_singleton _, fun tag htag other hother ↦ ?_⟩
    rw [List.mem_singleton.mp hother]
    rintro rfl
    exact hnew htag
  · rcases List.mem_append.mp hmem with hold | hlast
    · exact h.generated tag hold
    · exact Or.inr ⟨word, hword, (List.mem_singleton.mp hlast).symm,
        List.mem_singleton.mp hlast ▸ hlength⟩

theorem tagsLoop_done {allTags generatedTags : List String}
    (hdone : config.numTags ≤ allTags.length + generatedTags.length)
    (h : TagsUpTo source allTags generatedTags) :
    Converges
      (fun fuel ↦
        source.tagsLoop config.numTags allTags fuel (allTags ++ generatedTags) generatedTags)
      (fun generatedTags ↦ config.numTags ≤ allTags.length + generatedTags.length ∧
        TagsUpTo source allTags generatedTags) s :=
  (Converges.of_ok (fun _ ↦ congrFun (if_neg (Int.not_lt.mpr hdone)) s) ⟨hdone, h⟩).of_succ

theorem tagsLoop_converges (hvaried : source.Varied config) {remaining : ℕ}
    {allTags generatedTags : List String} (hlisted : tagCategories.flatten ⊆ allTags)
    (hremaining : config.numTags ≤ allTags.length + generatedTags.length + remaining)
    (h : TagsUpTo source allTags generatedTags) :
    Converges
      (fun fuel ↦
        source.tagsLoop config.numTags allTags fuel (allTags ++ generatedTags) generatedTags)
      (fun generatedTags ↦ config.numTags ≤ allTags.length + generatedTags.length ∧
        TagsUpTo source allTags generatedTags) s := by
  induction remaining generalizing generatedTags s with
  | zero => exact tagsLoop_done (by omega) h
  | succ remaining ih =>
    by_cases hmore : allTags.length + generatedTags.length < config.numTags
    case neg => exact tagsLoop_done (Int.not_lt.mp hmore) h
    have hstep (s fuel : ℕ) : source.tagsLoop config.numTags allTags (fuel + 1)
        (allTags ++ generatedTags) generatedTags s =
          (let tag := source.capitalize (source.text .word s)
          if tag ∉ allTags ++ generatedTags ∧ 2 < tag.length then
            source.tagsLoop config.numTags allTags fuel (allTags ++ generatedTags ++ [tag])
              (generatedTags ++ [tag])
          else
            source.tagsLoop config.numTags allTags fuel (allTags ++ generatedTags) generatedTags)
          (s + 1) := by
      rw [tagsLoop, if_pos hmore]
      rfl
    refine converges_retry (fun s ↦
      source.capitalize (source.text .word s) ∉ allTags ++ generatedTags ∧
        2 < (source.capitalize (source.text .word s)).length)
      (fun s hused fuel ↦ (hstep s fuel).trans (congrFun (if_neg hused) (s + 1)))
      (fun s hnew ↦ ?_) (hvaried.tags _ (List.subset_append_of_subset_left _ hlisted) ?_ s)
    · have hlonger := h.concat ⟨s, rfl⟩ hnew.1 hnew.2
      have hnext : Converges (fun fuel ↦ source.tagsLoop config.numTags allTags fuel
          (allTags ++ generatedTags ++ [source.capitalize (source.text .word s)])
            (generatedTags ++ [source.capitalize (source.text .word s)]))
          (fun generatedTags ↦ config.numTags ≤ allTags.length + generatedTags.length ∧
            TagsUpTo source allTags generatedTags) (s + 1) := by
        rw [List.append_assoc]
        refine ih ?_ hlonger
        rw [List.length_append, List.length_singleton]
        omega
      exact (hnext.of_step fun fuel ↦
        (hstep s fuel).trans (congrFun (if_pos hnew) (s + 1))).of_succ
    · rw [List.length_append]
      omega

/-- The tags that `generate_tags` selects. -/
structure TagsSelected (source : Source) (count : Int) (tags : List TagRow) : Prop where
  ids : tags.map (·.id) = rangeFromOne count
  names : (tags.map (·.name)).Nodup
  tags : ∀ tag ∈ tags, TagSound source (String.ofList tag.name)

theorem tagsSelected_slice {selected : List String} (hcount : 0 ≤ config.numTags)
    (hlength : config.numTags ≤ selected.length) (hnodup : selected.Nodup)
    (hsound : ∀ tag ∈ selected, TagSound source tag) :
    TagsSelected source config.numTags ((sliceTo selected config.numTags).mapIdx
      fun index tag ↦ ⟨index + 1, tag.toList⟩) := by
  rw [sliceTo, if_pos hcount]
  have hnames := map_mapIdx (fun index (tag : String) ↦ (⟨index + 1, tag.toList⟩ : TagRow))
    TagRow.name String.toList (fun _ _ ↦ rfl) (selected.take config.numTags.toNat)
  refine ⟨?_, ?_, fun tag hmem ↦ ?_⟩
  · have hids := mapIdx_rangeFromOne (fun id (tag : String) ↦ (⟨id, tag.toList⟩ : TagRow))
      TagRow.id (fun _ _ ↦ rfl) (selected.take config.numTags.toNat)
    rw [hids, List.length_take, Nat.min_eq_left (by omega), Int.toNat_of_nonneg hcount]
  · rw [hnames]
    exact (hnodup.sublist (List.take_sublist _ _)).map fun _ _ ↦ String.toList_injective
  · have hname : tag.name ∈ (selected.take config.numTags.toNat).map String.toList := by
      rw [← hnames]
      exact List.mem_map_of_mem hmem
    obtain ⟨text, htext, heq⟩ := List.mem_map.mp hname
    rw [← heq, String.ofList_toList]
    exact hsound text (List.mem_of_mem_take htext)

theorem generateTags_converges (hvaried : source.Varied config) (hcount : 0 ≤ config.numTags) :
    Converges (source.generateTags config.numTags) (TagsSelected source config.numTags) s := by
  have hstart : TagsUpTo source tagCategories.flatten.dedup [] := by
    refine ⟨?_, nofun⟩
    rw [List.append_nil]
    exact List.nodup_dedup _
  have hremaining : config.numTags ≤ (tagCategories.flatten.dedup.length : Int) +
      ([] : List String).length + config.numTags.toNat := by
    omega
  have hlisted : tagCategories.flatten ⊆ tagCategories.flatten.dedup :=
    List.subset_dedup _
  have hloop := tagsLoop_converges (s := s) hvaried hlisted hremaining hstart
  rw [List.append_nil] at hloop
  unfold generateTags
  refine hloop.bind fun generatedTags s' h ↦ ?_
  refine (sample_converges le_rfl).bind fun selected _ hselected ↦ .pure ?_
  obtain ⟨hlength, rest, hperm⟩ := hselected
  have hrest : rest = [] := by
    have hall := hperm.length_eq
    rw [List.length_append] at hall
    exact List.eq_nil_of_length_eq_zero (by omega)
  rw [hrest, List.append_nil] at hperm
  refine tagsSelected_slice hcount ?_ (hperm.nodup_iff.mpr h.2.nodup) fun tag hmem ↦ ?_
  · rw [hlength, List.length_append, Int.natCast_add]
    exact h.1
  · rcases List.mem_append.mp (hperm.mem_iff.mp hmem) with hlisted | hgenerated
    · exact Or.inl (List.mem_dedup.mp hlisted)
    · exact h.2.generated tag hgenerated

end Loops

/-! ### The pairs -/

section Pairs

variable {source : Source} {config : Config} {s : ℕ}

/-- The rows of `post_tags` so far. -/
structure LinksSoFar (config : Config) (rows : List PostTagRow) : Prop where
  ids : rows.map (·.id) = rangeFromOne rows.length
  pairs : (rows.map fun row ↦ (row.postId, row.tagId)).Nodup
  rows : ∀ row ∈ rows,
    row.postId ∈ rangeFromOne config.numPosts ∧ row.tagId ∈ rangeFromOne config.numTags

theorem LinksSoFar.concat {rows : List PostTagRow} {postId tagId : Int}
    (h : LinksSoFar config rows) (hpost : postId ∈ rangeFromOne config.numPosts)
    (htag : tagId ∈ rangeFromOne config.numTags)
    (hnew : (postId, tagId) ∉ rows.map fun row ↦ (row.postId, row.tagId)) :
    LinksSoFar config (rows ++ [⟨rows.length + 1, postId, tagId⟩]) := by
  refine ⟨?_, ?_, fun row hmem ↦ ?_⟩
  · rw [List.map_append, h.ids, List.length_append, List.length_singleton, Int.natCast_add,
      Int.natCast_one, rangeFromOne_succ (Int.natCast_nonneg _), List.map_singleton]
  · exact nodup_concat h.pairs fun row hrow hsame ↦ hnew (List.mem_map.mpr ⟨row, hrow, hsame⟩)
  · rcases List.mem_append.mp hmem with hold | hlast
    · exact h.rows row hold
    · rw [List.mem_singleton.mp hlast]
      exact ⟨hpost, htag⟩

/-- What the inner loop makes of the rows, for a post. -/
structure Linked (config : Config) (count postId : Int) (rows : List PostTagRow)
    (result : List PostTagRow × Bool) : Prop where
  links : LinksSoFar config result.1
  others : ∀ row ∈ result.1, row ∈ rows ∨ row.postId = postId
  grows : rows.length ≤ result.1.length
  full : result.2 = true → count ≤ result.1.length ∧ result.1.length ≤ max 1 count
  room : result.2 = false → result.1.length < max 1 count

theorem linkTags_linked {count postId : Int} {tagIds : List Int} {rows : List PostTagRow}
    (h : LinksSoFar config rows) (hpost : postId ∈ rangeFromOne config.numPosts)
    (htags : ∀ tagId ∈ tagIds, tagId ∈ rangeFromOne config.numTags)
    (hroom : rows.length < max 1 count) :
    Linked config count postId rows (linkTags count postId tagIds rows) := by
  induction tagIds generalizing rows with
  | nil => exact ⟨h, fun _ ↦ Or.inl, le_rfl, nofun, fun _ ↦ hroom⟩
  | cons tagId tagIds ih =>
    obtain ⟨htag, htags⟩ := List.forall_mem_cons.mp htags
    rw [linkTags]
    split_ifs with hused
    · exact ih h htags hroom
    · have hconcat := h.concat hpost htag hused
      have hlength (row : PostTagRow) : (rows ++ [row]).length = rows.length + 1 := by
        rw [List.length_append, List.length_singleton]
      have hmem (row : PostTagRow) (hrow : row ∈ rows ++ [⟨rows.length + 1, postId, tagId⟩]) :
          row ∈ rows ∨ row.postId = postId := by
        rcases List.mem_append.mp hrow with hold | hlast
        · exact Or.inl hold
        · exact Or.inr (congrArg PostTagRow.postId (List.mem_singleton.mp hlast))
      dsimp only
      split_ifs with hcount
      · refine ⟨hconcat, hmem, ?_, fun _ ↦ ⟨hcount, ?_⟩, nofun⟩
        · rw [hlength]
          exact Nat.le_succ _
        · rw [hlength]
          omega
      · have hnext := ih hconcat htags (by omega)
        refine ⟨hnext.links, fun row hrow ↦ ?_, ?_, hnext.full, hnext.room⟩
        · exact (hnext.others row hrow).elim (hmem row) Or.inr
        · exact (Nat.le_succ _).trans ((hlength _).ge.trans hnext.grows)

/-- A post that has no tag yet gets one. -/
theorem linkTags_grows {count postId tagId : Int} {tagIds : List Int} {rows : List PostTagRow}
    (h : LinksSoFar config rows) (hpost : postId ∈ rangeFromOne config.numPosts)
    (htags : ∀ other ∈ tagId :: tagIds, other ∈ rangeFromOne config.numTags)
    (hnone : ∀ row ∈ rows, row.postId ≠ postId) :
    rows.length + 1 ≤ (linkTags count postId (tagId :: tagIds) rows).1.length := by
  obtain ⟨htag, htags⟩ := List.forall_mem_cons.mp htags
  have hnew : (postId, tagId) ∉ rows.map fun row ↦ (row.postId, row.tagId) := by
    rintro hmem
    obtain ⟨row, hrow, hpair⟩ := List.mem_map.mp hmem
    exact hnone row hrow (congrArg Prod.fst hpair)
  have hlength (row : PostTagRow) : (rows ++ [row]).length = rows.length + 1 := by
    rw [List.length_append, List.length_singleton]
  rw [linkTags, if_neg hnew]
  dsimp only
  split_ifs with hcount
  · exact (hlength _).ge
  · refine (hlength _).ge.trans (linkTags_linked (h.concat hpost htag hnew) hpost htags ?_).grows
    omega

/-- What `generate_post_tags` writes. -/
structure LinksWritten (config : Config) (posts : ℕ) (rows : List PostTagRow) : Prop where
  links : LinksSoFar config rows
  count : rows.length ≤ max 1 config.numPostTags
  reached : posts ≤ rows.length ∨ config.numPostTags ≤ rows.length

/-- The posts are gone through one by one, and each gets a tag at least. -/
theorem postTagsLoop_converges (htags : 5 ≤ config.numTags) {postIds : List Int}
    {rows : List PostTagRow} {posts : ℕ} (h : LinksSoFar config rows) (hnodup : postIds.Nodup)
    (hposts : ∀ postId ∈ postIds, postId ∈ rangeFromOne config.numPosts ∧
      ∀ row ∈ rows, row.postId ≠ postId)
    (hroom : rows.length < max 1 config.numPostTags) (hlength : posts ≤ rows.length) :
    Converges (fun _ ↦ source.postTagsLoop config.numPostTags config.numTags postIds rows)
      (LinksWritten config (posts + postIds.length)) s := by
  induction postIds generalizing rows posts s with
  | nil => exact .pure ⟨h, hroom.le, Or.inl hlength⟩
  | cons postId postIds ih =>
    obtain ⟨hfresh, hnodup⟩ := List.nodup_cons.mp hnodup
    obtain ⟨⟨hpost, hnone⟩, hposts⟩ := List.forall_mem_cons.mp hposts
    unfold postTagsLoop
    refine (randint_converges (by decide)).bind fun size _ hsize ↦ ?_
    refine (sample_converges ?_).bind fun selected s' hselected ↦ ?_
    · rw [length_rangeFromOne]
      omega
    obtain ⟨hcount, rest, hperm⟩ := hselected
    have hselected (tagId : Int) (hmem : tagId ∈ selected) : tagId ∈ rangeFromOne config.numTags :=
      hperm.mem_iff.mp (List.mem_append_left _ hmem)
    have hlinked := linkTags_linked h hpost hselected hroom
    have hgrows : posts + 1 ≤ (linkTags config.numPostTags postId selected rows).1.length := by
      cases selected with
      | nil =>
        rw [List.length_nil] at hcount
        omega
      | cons tagId tagIds =>
        exact (Nat.add_le_add_right hlength 1).trans (linkTags_grows h hpost hselected hnone)
    cases hresult : linkTags config.numPostTags postId selected rows with
    | mk rows' full =>
      rw [hresult] at hlinked hgrows
      cases full with
      | true =>
        obtain ⟨hreached, hbound⟩ := hlinked.full rfl
        exact .pure ⟨hlinked.links, hbound, Or.inr hreached⟩
      | false =>
        rw [List.length_cons, Nat.add_comm postIds.length, ← Nat.add_assoc]
        refine ih hlinked.links hnodup (fun other hother ↦ ?_) (hlinked.room rfl) hgrows
        obtain ⟨hrange, hothers⟩ := hposts other hother
        refine ⟨hrange, fun row hrow ↦ ?_⟩
        rcases hlinked.others row hrow with hold | hself
        · exact hothers row hold
        · rw [hself]
          rintro rfl
          exact hfresh hother

end Pairs

/-! ### The files -/

section Written

variable {source : Source} {config : Config} {s : ℕ}

theorem Dates.isPlain {date : String} (h : source.Dates date) :
    ∀ ch ∈ date.toList, isPlain ch = true := by
  obtain ⟨startDate, drawn, rfl⟩ := h
  exact isPlain_strftime _

/-- The comment that is appended. -/
structure Appended (source : Source) (config : Config) (newCommentId : Int)
    (comment : CommentRow) : Prop where
  id : comment.id = newCommentId
  content : comment.content = MY_COMMENT
  date : source.Dates comment.date
  author : ∃ authorId ∈ rangeFromOne config.numUsers, comment.authorId = some authorId
  post : comment.postId ∈ rangeFromOne config.numPosts

/-- The comments are read back one by one, whatever newlines their texts have, and the new comment
gets the next number. -/
theorem addMyCommentToCsv_converges (husers : 1 ≤ config.numUsers) (hposts : 1 ≤ config.numPosts)
    {comments : List CommentRow} (hdates : ∀ comment ∈ comments, source.Dates comment.date) :
    Converges
      (fun _ ↦ source.addMyCommentToCsv config.numUsers config.numPosts
        (writeRows (comments.map CommentRow.cells)))
      (fun file ↦ ∃ mine, Appended source config (comments.length + 1) mine ∧ file =
        writeRows ((comments.map CommentRow.normalize ++ [mine]).map CommentRow.cells)) s := by
  have hread : readRows (universalNewlines (writeRows (comments.map CommentRow.cells))) =
      some ((comments.map CommentRow.normalize).map CommentRow.cells) := by
    rw [readRows_writeRows fun row hrow ↦ ?_, List.map_map, List.map_map]
    · refine congrArg some (List.map_congr_left fun comment hmem ↦ ?_)
      exact CommentRow.cells_normalize (hdates comment hmem).isPlain
    · obtain ⟨comment, -, rfl⟩ := List.mem_map.mp hrow
      exact List.cons_ne_nil _ _
  unfold addMyCommentToCsv
  rw [hread]
  refine (randomDatetime_converges (by decide)).bind fun createdAt _ hdate ↦ ?_
  refine (randint_converges husers).bind fun authorId _ hauthor ↦ ?_
  refine (randint_converges hposts).bind fun postId _ hpost ↦ ?_
  have hmine : Appended source config (comments.length + 1)
      ⟨comments.length + 1, MY_COMMENT, createdAt.strftime, some authorId, postId⟩ :=
    ⟨rfl, rfl, hdate, ⟨authorId, mem_rangeFromOne.mpr hauthor, rfl⟩, mem_rangeFromOne.mpr hpost⟩
  refine .pure ⟨_, hmine, ?_⟩
  rw [List.length_map, List.length_map, List.map_append, List.map_singleton]

theorem universalNewlines_MY_COMMENT :
    String.ofList (universalNewlines MY_COMMENT.toList) = MY_COMMENT := by
  rw [universalNewlines_of_not_mem, String.ofList_toList]
  decide

theorem length_comments {comments : List CommentRow}
    (hids : comments.map (·.id) = rangeFromOne config.numComments) :
    (comments.length : Int) = max config.numComments 0 := by
  have hlength := congrArg List.length hids
  rw [List.length_map, length_rangeFromOne] at hlength
  omega

/-- The comments are numbered in the order of the file. -/
theorem commentIds {comments : List CommentRow} {mine : CommentRow}
    (hids : comments.map (·.id) = rangeFromOne config.numComments)
    (hmine : mine.id = comments.length + 1) :
    (comments.map CommentRow.normalize ++ [mine]).map (·.id) =
      rangeFromOne (comments.length + 1) := by
  have hcount : rangeFromOne config.numComments = rangeFromOne comments.length := by
    rw [rangeFromOne, rangeFromOne, length_comments hids, ← Int.toNat_eq_max, Int.toNat_natCast]
  rw [rangeFromOne_succ (Int.natCast_nonneg _), List.map_append, List.map_map, ← hcount, ← hids,
    List.map_singleton, hmine]
  rfl

/-- The rows of the last state of the file. -/
theorem sound_comments {comments : List CommentRow} {mine : CommentRow}
    (h : ∀ comment ∈ comments, Commented source config comment)
    (hmine : Appended source config (comments.length + 1) mine) :
    ∀ comment ∈ comments.map CommentRow.normalize ++ [mine], comment.Sound source config := by
  intro comment hmem
  rcases List.mem_append.mp hmem with hold | hlast
  · obtain ⟨original, horiginal, rfl⟩ := List.mem_map.mp hold
    have hsound := h original horiginal
    exact ⟨⟨_, Or.inl hsound.content, rfl⟩, hsound.date, hsound.author, hsound.post⟩
  · rw [List.mem_singleton.mp hlast]
    obtain ⟨authorId, hauthorId, hauthor⟩ := hmine.author
    refine ⟨⟨MY_COMMENT, Or.inr rfl, ?_⟩, hmine.date, fun author hmem ↦ ?_, hmine.post⟩
    · rw [universalNewlines_MY_COMMENT, hmine.content]
    · rw [hauthor] at hmem
      exact Option.some.inj hmem ▸ hauthorId

/-- If Faker does not run out of new emails and tags, the generator returns, and what it writes is
sound. -/
theorem generateAllData_converges (husers : 1 ≤ config.numUsers) (hposts : 1 ≤ config.numPosts)
    (htags : 5 ≤ config.numTags) (hvaried : source.Varied config) (s : ℕ) :
    Converges (source.generateAllData config)
      (fun files ↦ ∃ data : Dataset, data.Sound source config ∧ files = data.files) s := by
  have hstart : UsersUpTo source (1 - 1) [] := ⟨rfl, List.nodup_nil, nofun⟩
  have hremaining : 1 + (config.numUsers.toNat : Int) = config.numUsers + 1 := by omega
  unfold generateAllData
  refine (usersLoop_converges hvaried hremaining le_rfl hstart).bind fun users _ husersSound ↦ ?_
  refine (Converges.mapM (fun postId _ _ ↦ generatePost_converges husers postId) _).bind
    fun posts _ hpostsSound ↦ ?_
  refine (generateTags_converges hvaried (by omega)).bind fun tags _ htagsSound ↦ ?_
  refine (Converges.mapM (fun commentId _ _ ↦ generateComment_converges husers hposts commentId)
    _).bind fun comments _ hcomments ↦ ?_
  refine (addMyCommentToCsv_converges husers hposts fun comment hmem ↦
    (hcomments.2 comment hmem).date).bind fun commentsFile _ hfile ↦ ?_
  have hnone : LinksSoFar config [] := ⟨rfl, List.nodup_nil, nofun⟩
  have hroom : ([] : List PostTagRow).length < max 1 config.numPostTags := by
    rw [List.length_nil]
    omega
  refine (postTagsLoop_converges htags hnone nodup_rangeFromOne
    (fun postId hpost ↦ ⟨hpost, nofun⟩) hroom le_rfl).bind fun postTags _ hlinks ↦ .pure ?_
  obtain ⟨mine, hmine, rfl⟩ := hfile
  have hnumber := length_comments hcomments.1
  refine ⟨⟨users, posts, tags, comments.map CommentRow.normalize ++ [mine], postTags⟩, ?_, rfl⟩
  exact {
    userIds := husersSound.ids
    emails := husersSound.emails
    users := husersSound.users
    postIds := hpostsSound.1
    posts := hpostsSound.2
    tagIds := htagsSound.ids
    tagNames := htagsSound.names
    tags := htagsSound.tags
    commentIds := by rw [← hnumber]; exact commentIds hcomments.1 hmine.id
    comments := sound_comments hcomments.2 hmine
    mine := by
      obtain ⟨author, -, hauthor⟩ := hmine.author
      exact ⟨mine, List.mem_append_right _ (List.mem_singleton_self _), hnumber ▸ hmine.id,
        hmine.content, Option.isSome_of_eq_some hauthor⟩
    postTagIds := hlinks.links.ids
    pairs := hlinks.links.pairs
    postTags := hlinks.links.rows
    count := hlinks.count
    reached := hlinks.reached.imp_left fun hposts ↦ by
      rw [List.length_nil, Nat.zero_add, length_rangeFromOne] at hposts
      exact Int.toNat_le.mp hposts }

end Written

/-! ### Running out -/

section RunningOut

variable {source : Source} {config : Config} {emails tags : List String}

/-- Fewer are in use than there are. -/
theorem exists_unused {used all : List String} (h : used.length < all.dedup.length) :
    ∃ text ∈ all, text ∉ used := by
  by_contra! hnone
  have hsubset : all.dedup ⊆ used := fun text hmem ↦ hnone text (List.mem_dedup.mp hmem)
  have hle := (List.subperm_of_subset (List.nodup_dedup all) hsubset).length_le
  omega

theorem Vocabulary.varied (h : source.Vocabulary emails tags)
    (henough : config.Enough emails tags) : source.Varied config where
  emails used hused drawn := by
    have hfew : used.length < emails.dedup.length := by
      have hemails := henough.1
      omega
    obtain ⟨email, hmem, hnew⟩ := exists_unused hfew
    obtain ⟨later, hle, rfl⟩ := h.emailRecurs email hmem drawn
    exact ⟨later, hle, hnew⟩
  tags used hlisted hused drawn := by
    have hfew : used.length < (tagCategories.flatten ++ tags).dedup.length := by
      have htags := henough.2
      omega
    obtain ⟨tag, hmem, hnew⟩ := exists_unused hfew
    have htag := (List.mem_append.mp hmem).resolve_left fun hlisted' ↦ hnew (hlisted hlisted')
    obtain ⟨hlength, hrecurs⟩ := h.tagRecurs tag htag
    obtain ⟨later, hle, rfl⟩ := hrecurs drawn
    exact ⟨later, hle, hnew, hlength⟩

/-- The loop for the users does not end while all emails are in use. -/
theorem usersLoop_ne_ok (h : source.Vocabulary emails tags) {count : Int}
    (hfew : emails.dedup.length < count) {fuel : ℕ} {userId : Int} {used : List String}
    {users : List UserRow} {s : ℕ} (hnodup : used.Nodup) (hused : used ⊆ emails)
    (hid : userId = used.length + 1) (result : List UserRow) (s' : ℕ) :
    source.usersLoop count fuel userId used users s ≠ .ok result s' := by
  induction fuel generalizing userId used users s with
  | zero => exact nofun
  | succ fuel ih =>
    have hle := (List.subperm_of_subset hnodup fun email hmem ↦
      List.mem_dedup.mpr (hused hmem)).length_le
    have hmore : userId ≤ count := by omega
    intro hrun
    rw [usersLoop, if_pos hmore] at hrun
    obtain ⟨email, s₁, hfaker, hrun⟩ := exists_of_bind_ok hrun
    split_ifs at hrun with hold
    · exact ih hnodup hused hid hrun
    · obtain ⟨createdAt, s₂, -, hrun⟩ := exists_of_bind_ok hrun
      cases hfaker
      refine ih ?_ ?_ ?_ hrun
      · exact hnodup.append (List.nodup_singleton _) (List.disjoint_singleton.mpr hold)
      · exact List.append_subset.mpr ⟨hused, List.cons_subset.mpr ⟨h.email s, List.nil_subset _⟩⟩
      · rw [List.length_append, List.length_singleton, hid, Int.natCast_add]
        rfl

/-- The loop for the tags does not end while all tags are in use. -/
theorem tagsLoop_ne_ok (h : source.Vocabulary emails tags) {count : Int}
    (hfew : (tagCategories.flatten ++ tags).dedup.length < count) (fuel s : ℕ)
    {allTags generatedTags : List String} (hnodup : (allTags ++ generatedTags).Nodup)
    (hused : allTags ++ generatedTags ⊆ tagCategories.flatten ++ tags) (result : List String)
    (s' : ℕ) :
    source.tagsLoop count allTags fuel (allTags ++ generatedTags) generatedTags s ≠
      .ok result s' := by
  induction fuel generalizing generatedTags s with
  | zero => exact nofun
  | succ fuel ih =>
    have hle := (List.subperm_of_subset hnodup fun tag hmem ↦
      List.mem_dedup.mpr (hused hmem)).length_le
    have hmore : allTags.length + generatedTags.length < count := by
      rw [List.length_append] at hle
      omega
    intro hrun
    rw [tagsLoop, if_pos hmore] at hrun
    obtain ⟨word, s₁, hfaker, hrun⟩ := exists_of_bind_ok hrun
    dsimp only at hrun
    split_ifs at hrun with hnew
    · cases hfaker
      rw [List.append_assoc] at hrun
      refine ih _ ?_ ?_ hrun
      · rw [← List.append_assoc]
        exact hnodup.append (List.nodup_singleton _) (List.disjoint_singleton.mpr hnew.1)
      · rw [← List.append_assoc]
        have htag := List.mem_append_right tagCategories.flatten (h.tag s hnew.2)
        exact List.append_subset.mpr ⟨hused, List.cons_subset.mpr ⟨htag, List.nil_subset _⟩⟩
    · exact ih _ hnodup hused hrun

/-- Without enough emails or tags the generator never returns. -/
theorem generateAllData_ne_ok (h : source.Vocabulary emails tags)
    (hfew : ¬config.Enough emails tags) (fuel s : ℕ) (files : Files) (s' : ℕ) :
    source.generateAllData config fuel s ≠ .ok files s' := by
  intro hrun
  obtain ⟨users, s₁, husers, hrun⟩ := exists_of_bind_ok hrun
  obtain ⟨posts, s₂, -, hrun⟩ := exists_of_bind_ok hrun
  obtain ⟨selected, s₃, htags, -⟩ := exists_of_bind_ok hrun
  obtain ⟨generatedTags, s₄, htags, -⟩ := exists_of_bind_ok htags
  refine hfew ⟨?_, ?_⟩
  · by_contra! hemails
    exact usersLoop_ne_ok h hemails List.nodup_nil (List.nil_subset _) rfl users s₁ husers
  · by_contra! hall
    have hnodup : (tagCategories.flatten.dedup ++ []).Nodup := by
      rw [List.append_nil]
      exact List.nodup_dedup _
    have hused : tagCategories.flatten.dedup ++ [] ⊆ tagCategories.flatten ++ tags := by
      rw [List.append_nil]
      exact List.Subset.trans (List.dedup_subset _) (List.subset_append_left _ _)
    have hne := tagsLoop_ne_ok h hall fuel s₂ hnodup hused generatedTags s₄
    rw [List.append_nil] at hne
    exact hne htags

/-- Two emails, one word and always the same time. -/
def twoEmails : Source where
  number _ := 0
  text call drawn :=
    match call with
    | .email => if drawn % 2 = 0 then "ann@example.org" else "bob@example.org"
    | _ => "Oak."
  time _ _ := ⟨2025, 1, 1, 0, 0, 0⟩
  capitalize text := text

theorem twoEmails_vocabulary :
    twoEmails.Vocabulary ["ann@example.org", "bob@example.org"] ["Oak."] where
  email drawn := by
    rcases Nat.mod_two_eq_zero_or_one drawn with heven | hodd
    · simp [twoEmails, heven]
    · simp [twoEmails, hodd]
  emailRecurs email hmem drawn := by
    rcases List.mem_cons.mp hmem with rfl | hmem
    · exact ⟨2 * drawn, by omega, if_pos (Nat.mul_mod_right 2 drawn)⟩
    · rw [List.mem_singleton.mp hmem]
      exact ⟨2 * drawn + 1, by omega, if_neg (by omega)⟩
  tag drawn _ := List.mem_singleton_self _
  tagRecurs tag hmem := by
    rw [List.mem_singleton.mp hmem]
    exact ⟨by decide, fun drawn ↦ ⟨drawn, le_rfl, rfl⟩⟩

/-- Suppose there are users, posts and five tags to refer to. If Faker knows enough emails and tags,
the generator returns for every outcome of the draws, and what it writes is the files of sound data.
If not, it never returns. -/
theorem generateAllData_returns (husers : 1 ≤ config.numUsers) (hposts : 1 ≤ config.numPosts)
    (htags : 5 ≤ config.numTags) (h : source.Vocabulary emails tags) (s : ℕ) :
    (config.Enough emails tags → Converges (source.generateAllData config)
      (fun files ↦ ∃ data : Dataset, data.Sound source config ∧ files = data.files) s) ∧
    (¬config.Enough emails tags → ∀ fuel files s',
      source.generateAllData config fuel s ≠ .ok files s') :=
  ⟨fun henough ↦ generateAllData_converges husers hposts htags (h.varied henough) s,
    fun hfew fuel files s' ↦ generateAllData_ne_ok h hfew fuel s files s'⟩

/-- Two emails are enough for two users, but not for three. -/
theorem generateAllData_returns_two :
    Converges (twoEmails.generateAllData ⟨2, 1, 1, 5, 3⟩) (fun files ↦
      ∃ data : Dataset, data.Sound twoEmails ⟨2, 1, 1, 5, 3⟩ ∧ files = data.files) 0 ∧
    ∀ fuel files s', twoEmails.generateAllData ⟨3, 1, 1, 5, 3⟩ fuel 0 ≠ .ok files s' := by
  have hlisted : tagCategories.flatten.take 5 ⊆ (tagCategories.flatten ++ ["Oak."]).dedup :=
    fun tag hmem ↦ List.mem_dedup.mpr (List.mem_append_left _ (List.mem_of_mem_take hmem))
  have htags : 5 ≤ (tagCategories.flatten ++ ["Oak."]).dedup.length :=
    (List.subperm_of_subset (by decide) hlisted).length_le
  refine ⟨(generateAllData_returns (by decide) (by decide) (by decide) twoEmails_vocabulary 0).1
    ⟨by decide, Int.ofNat_le.mpr htags⟩, ?_⟩
  exact (generateAllData_returns (by decide) (by decide) (by decide) twoEmails_vocabulary 0).2
    fun henough ↦ absurd henough.1 (by decide)

end RunningOut

end Source

end StudStuff.Dbms
