import StudStuff.Dbms.Tables
import StudStuff.Dbms.Tags
import StudStuff.Lib.Relational

/-!
# The tags of all users

The query of `GetTagsForAllUsers`, which joins the users with their comments, these with the tags of
the posts, and collects the names of the tags by user. The array that the query returns goes through
its text form and `ParseTags`. The tables that it reads besides `users` are those that no program of
the repository writes. In which order `ARRAY_AGG` sorts the names depends on the collation of the
database and may be any.

Where the names need no quotes, a user gets the names of the tags on the posts that the user has
commented on. The nulls of the left joins come through as well: a user without comments, or with a
comment on a post without tags, gets the tag `NULL` (`getTagsForAllUsers_spec`).
-/

set_option autoImplicit false
set_option relaxedAutoImplicit false

namespace StudStuff.Dbms

open Lib

/-! ### Rows -/

/-- A row of `comments`. -/
structure CommentRow where
  id : Int
  content : String
  date : String
  authorId : Option Int
  postId : Int
  deriving DecidableEq, Repr

/-- A row of `tags`. -/
structure TagRow where
  id : Int
  name : List Char
  deriving DecidableEq, Repr

/-- A row of `post_tags`. -/
structure PostTagRow where
  id : Int
  postId : Int
  tagId : Int
  deriving DecidableEq, Repr

/-- The tables besides `users` and `posts`. -/
structure Forum where
  comments : List CommentRow
  tags : List TagRow
  postTags : List PostTagRow
  deriving DecidableEq, Repr

/-- `UserTagsResult`. -/
structure UserTagsResult where
  userId : Int
  email : String
  tags : Finset (List Char)
  deriving DecidableEq

/-! ### The query -/

section Query

/-- `C.author_id = U.id`. -/
def onAuthor (user : UserRow) (comment : CommentRow) : Bool := comment.authorId = some user.id

/-- `PT.post_id = C.post_id`. -/
def onPost (row : UserRow × Option CommentRow) (link : PostTagRow) : Bool :=
  row.2.any fun comment ↦ link.postId = comment.postId

/-- `T.id = PT.tag_id`. -/
def onTag (row : (UserRow × Option CommentRow) × Option PostTagRow) (tag : TagRow) : Bool :=
  row.2.any fun link ↦ tag.id = link.tagId

/-- The rows of the three joins: the user, and the tag if there is one. -/
def joinTags (forum : Forum) (users : List UserRow) : List (UserRow × Option TagRow) :=
  let commented := leftJoin users forum.comments onAuthor
  let linked := leftJoin commented forum.postTags onPost
  let tagged := leftJoin linked forum.tags onTag
  tagged.map fun row ↦ (row.1.1.1, row.2)

/-- `ARRAY_AGG (DISTINCT T.name ORDER BY T.name)`. -/
def arrayAgg (collation : Option (List Char) → Option (List Char) → Bool)
    (names : List (Option (List Char))) : List (Option (List Char)) :=
  names.dedup.mergeSort collation

/-- The groups of `GROUP BY U.id, U.email`, with the array of each. -/
def groupTags (collation : Option (List Char) → Option (List Char) → Bool) (forum : Forum)
    (users : List UserRow) : List ((Int × String) × List (Option (List Char))) :=
  (groupBy (fun row ↦ (row.1.id, row.1.email)) (joinTags forum users)).map fun group ↦
    (group.1, arrayAgg collation (group.2.map fun row ↦ row.2.map (·.name)))

/-- The rows of the query. -/
def selectTags (collation : Option (List Char) → Option (List Char) → Bool) (forum : Forum)
    (users : List UserRow) : List ((Int × String) × List (Option (List Char))) :=
  orderBy (fun row ↦ row.1.1) (groupTags collation forum users)

/-- `GetTagsForAllUsers`, on the contents of the tables that the transaction sees. -/
def tagsForAllUsers (collation : Option (List Char) → Option (List Char) → Bool) (forum : Forum)
    (view : Tables) : List UserTagsResult :=
  (selectTags collation forum view.users).map fun row ↦
    ⟨row.1.1, row.1.2, parseTags (some (arrayText row.2))⟩

end Query

/-! ### What a user gets -/

section Meaning

variable {forum : Forum} {users : List UserRow} {user : UserRow} {name : List Char}

/-- The user has commented on a post with this tag. -/
def Earned (forum : Forum) (userId : Int) (name : List Char) : Prop :=
  ∃ comment ∈ forum.comments, comment.authorId = some userId ∧
    ∃ link ∈ forum.postTags, link.postId = comment.postId ∧
      ∃ tag ∈ forum.tags, tag.id = link.tagId ∧ tag.name = name

/-- The user has no comment, or one on a post without tags. -/
def Untagged (forum : Forum) (userId : Int) : Prop :=
  (∀ comment ∈ forum.comments, comment.authorId ≠ some userId) ∨
    ∃ comment ∈ forum.comments, comment.authorId = some userId ∧
      ∀ link ∈ forum.postTags, link.postId ≠ comment.postId

/-- `fk_tags_post_tags`. -/
def Forum.TagsExist (forum : Forum) : Prop :=
  ∀ link ∈ forum.postTags, ∃ tag ∈ forum.tags, tag.id = link.tagId

/-- A row with a tag comes from a comment and a link. -/
theorem mem_joinTags_some : (∃ tag, (user, some tag) ∈ joinTags forum users ∧ tag.name = name) ↔
    user ∈ users ∧ Earned forum user.id name := by
  simp only [joinTags, List.mem_map, Prod.mk.injEq]
  constructor
  · rintro ⟨tag, ⟨⟨⟨⟨_, comment⟩, link⟩, _⟩, hmem, rfl, rfl⟩, rfl⟩
    obtain ⟨hlinked, htag, htagId⟩ := mem_leftJoin_some.mp hmem
    cases link with
    | none => cases htagId
    | some link =>
      obtain ⟨hcommented, hlink, hpostId⟩ := mem_leftJoin_some.mp hlinked
      cases comment with
      | none => cases hpostId
      | some comment =>
        obtain ⟨huser, hcomment, hauthor⟩ := mem_leftJoin_some.mp hcommented
        exact ⟨huser, comment, hcomment, of_decide_eq_true hauthor, link, hlink,
          of_decide_eq_true hpostId, tag, htag, of_decide_eq_true htagId, rfl⟩
  · rintro ⟨huser, comment, hcomment, hauthor, link, hlink, hpostId, tag, htag, htagId, rfl⟩
    have hcommented : (user, some comment) ∈ leftJoin users forum.comments onAuthor :=
      mem_leftJoin_some.mpr ⟨huser, hcomment, decide_eq_true hauthor⟩
    have hlinked : (_, some link) ∈ leftJoin _ forum.postTags onPost :=
      mem_leftJoin_some.mpr ⟨hcommented, hlink, decide_eq_true hpostId⟩
    have htagged : (_, some tag) ∈ leftJoin _ forum.tags onTag :=
      mem_leftJoin_some.mpr ⟨hlinked, htag, decide_eq_true htagId⟩
    exact ⟨tag, ⟨_, htagged, rfl, rfl⟩, rfl⟩

/-- A row without a tag comes from a user without comments or from a post without tags. -/
theorem mem_joinTags_none (hexist : forum.TagsExist) : (user, none) ∈ joinTags forum users ↔
    user ∈ users ∧ Untagged forum user.id := by
  simp only [joinTags, List.mem_map, Prod.mk.injEq]
  constructor
  · rintro ⟨⟨⟨⟨_, comment⟩, link⟩, _⟩, hmem, rfl, rfl⟩
    obtain ⟨hlinked, hnoTag⟩ := mem_leftJoin_none.mp hmem
    cases link with
    | some link =>
      -- The tag of a link exists.
      obtain ⟨-, hlink, -⟩ := mem_leftJoin_some.mp hlinked
      obtain ⟨tag, htag, htagId⟩ := hexist link hlink
      exact absurd htagId (of_decide_eq_false (hnoTag tag htag))
    | none =>
      obtain ⟨hcommented, hnoLink⟩ := mem_leftJoin_none.mp hlinked
      cases comment with
      | some comment =>
        obtain ⟨huser, hcomment, hauthor⟩ := mem_leftJoin_some.mp hcommented
        exact ⟨huser, Or.inr ⟨comment, hcomment, of_decide_eq_true hauthor,
          fun link hlink ↦ of_decide_eq_false (hnoLink link hlink)⟩⟩
      | none =>
        obtain ⟨huser, hnoComment⟩ := mem_leftJoin_none.mp hcommented
        exact ⟨huser, Or.inl fun comment hcomment ↦
          of_decide_eq_false (hnoComment comment hcomment)⟩
  · rintro ⟨huser, hnoComment | ⟨comment, hcomment, hauthor, hnoLink⟩⟩
    · have hcommented : (user, none) ∈ leftJoin users forum.comments onAuthor :=
        mem_leftJoin_none.mpr ⟨huser, fun comment hcomment ↦
          decide_eq_false (hnoComment comment hcomment)⟩
      have hlinked : (_, none) ∈ leftJoin _ forum.postTags onPost :=
        mem_leftJoin_none.mpr ⟨hcommented, fun _ _ ↦ rfl⟩
      exact ⟨_, mem_leftJoin_none.mpr ⟨hlinked, fun _ _ ↦ rfl⟩, rfl, rfl⟩
    · have hcommented : (user, some comment) ∈ leftJoin users forum.comments onAuthor :=
        mem_leftJoin_some.mpr ⟨huser, hcomment, decide_eq_true hauthor⟩
      have hlinked : (_, none) ∈ leftJoin _ forum.postTags onPost :=
        mem_leftJoin_none.mpr ⟨hcommented, fun link hlink ↦ decide_eq_false (hnoLink link hlink)⟩
      exact ⟨_, mem_leftJoin_none.mpr ⟨hlinked, fun _ _ ↦ rfl⟩, rfl, rfl⟩

/-- Every user is in the join. -/
theorem exists_joinTags (hmem : user ∈ users) : ∃ tag, (user, tag) ∈ joinTags forum users := by
  obtain ⟨comment, hcommented⟩ := exists_leftJoin forum.comments onAuthor hmem
  obtain ⟨link, hlinked⟩ := exists_leftJoin forum.postTags onPost hcommented
  obtain ⟨tag, htagged⟩ := exists_leftJoin forum.tags onTag hlinked
  exact ⟨tag, List.mem_map.mpr ⟨_, htagged, rfl⟩⟩

theorem mem_of_mem_joinTags {tag : Option TagRow} (hmem : (user, tag) ∈ joinTags forum users) :
    user ∈ users := by
  simp only [joinTags, List.mem_map, Prod.mk.injEq] at hmem
  obtain ⟨⟨⟨⟨_, comment⟩, link⟩, _⟩, hmem, rfl, rfl⟩ := hmem
  exact (mem_leftJoin.mp (mem_leftJoin.mp (mem_leftJoin.mp hmem).1).1).1

end Meaning

/-! ### The results -/

section Results

variable {collation : Option (List Char) → Option (List Char) → Bool} {forum : Forum}
  {users : List UserRow} {view : Tables}

/-- What `GetTagsForAllUsers` returns: each user once, by ascending numbers, with the names of the
tags, and with the tag `NULL` if the user is `Untagged`. -/
structure TagsOf (forum : Forum) (users : List UserRow) (results : List UserTagsResult) :
    Prop where
  ascending : results.Pairwise fun result other ↦ result.userId < other.userId
  users : (results.map fun result ↦ (result.userId, result.email)).Perm
    (users.map fun user ↦ (user.id, user.email))
  tags : ∀ result ∈ results, ∀ token, token ∈ result.tags ↔
    Earned forum result.userId token ∨
      (token = ['N', 'U', 'L', 'L'] ∧ Untagged forum result.userId)

/-- The keys of the groups are those of the users. -/
theorem keys_groupTags (hkeys : (users.map (·.id)).Nodup) :
    ((groupTags collation forum users).map Prod.fst).Perm
      (users.map fun user ↦ (user.id, user.email)) := by
  have hnodup : (users.map fun user ↦ (user.id, user.email)).Nodup := by
    refine List.Nodup.of_map Prod.fst ?_
    rwa [List.map_map]
  have hgroups : (groupTags collation forum users).map Prod.fst =
      ((joinTags forum users).map fun row ↦ (row.1.id, row.1.email)).dedup := by
    rw [← keys_groupBy, groupTags, List.map_map]
    rfl
  rw [hgroups, List.perm_ext_iff_of_nodup (List.nodup_dedup _) hnodup]
  intro key
  rw [List.mem_dedup, List.mem_map, List.mem_map]
  constructor
  · rintro ⟨row, hmem, rfl⟩
    exact ⟨row.1, mem_of_mem_joinTags hmem, rfl⟩
  · rintro ⟨user, hmem, rfl⟩
    obtain ⟨tag, htag⟩ := exists_joinTags hmem
    exact ⟨_, htag, rfl⟩

theorem selectTags_pairwise (hkeys : (users.map (·.id)).Nodup) :
    (selectTags collation forum users).Pairwise fun row other ↦ row.1.1 < other.1.1 := by
  refine orderBy_pairwise ?_
  have hids : (((groupTags collation forum users).map Prod.fst).map Prod.fst).Perm _ :=
    (keys_groupTags hkeys).map Prod.fst
  rw [List.map_map, List.map_map] at hids
  exact hids.nodup_iff.mpr hkeys

/-- What is in the array of a group. -/
theorem mem_array {row : (Int × String) × List (Option (List Char))}
    (hrow : row ∈ selectTags collation forum users) (element : Option (List Char)) :
    element ∈ row.2 ↔ ∃ user tag, (user, tag) ∈ joinTags forum users ∧
      (user.id, user.email) = row.1 ∧ tag.map (·.name) = element := by
  obtain ⟨⟨key, members⟩, hgroup, rfl⟩ :=
    List.mem_map.mp ((orderBy_perm _ (groupTags collation forum users)).mem_iff.mp hrow)
  obtain ⟨-, rfl⟩ := mem_groupBy.mp hgroup
  simp only [arrayAgg, List.mem_mergeSort, List.mem_dedup, List.mem_map, List.mem_filter,
    decide_eq_true_eq, Prod.exists]
  constructor
  · rintro ⟨user, tag, ⟨hmem, hkey⟩, helement⟩
    exact ⟨user, tag, hmem, hkey, helement⟩
  · rintro ⟨user, tag, hmem, hkey, helement⟩
    exact ⟨user, tag, ⟨hmem, hkey⟩, helement⟩

/-- The group of a row is that of a user. -/
theorem exists_user (hkeys : (users.map (·.id)).Nodup)
    {row : (Int × String) × List (Option (List Char))}
    (hrow : row ∈ selectTags collation forum users) :
    ∃ user ∈ users, (user.id, user.email) = row.1 := by
  have hgroup : row.1 ∈ (groupTags collation forum users).map Prod.fst :=
    List.mem_map_of_mem ((orderBy_perm _ _).mem_iff.mp hrow)
  rw [(keys_groupTags hkeys).mem_iff, List.mem_map] at hgroup
  exact hgroup

theorem some_mem_array (hkeys : (users.map (·.id)).Nodup)
    {row : (Int × String) × List (Option (List Char))}
    (hrow : row ∈ selectTags collation forum users) (name : List Char) :
    some name ∈ row.2 ↔ Earned forum row.1.1 name := by
  rw [mem_array hrow]
  constructor
  · rintro ⟨user, tag, hmem, hkey, helement⟩
    obtain ⟨tag, rfl, hname⟩ := Option.map_eq_some_iff.mp helement
    have hearned := (mem_joinTags_some.mp ⟨tag, hmem, hname⟩).2
    rwa [← hkey]
  · intro hearned
    obtain ⟨user, huser, hkey⟩ := exists_user hkeys hrow
    rw [← hkey] at hearned
    obtain ⟨tag, hmem, rfl⟩ := mem_joinTags_some.mpr ⟨huser, hearned⟩
    exact ⟨user, some tag, hmem, hkey, rfl⟩

theorem none_mem_array (hkeys : (users.map (·.id)).Nodup) (hexist : forum.TagsExist)
    {row : (Int × String) × List (Option (List Char))}
    (hrow : row ∈ selectTags collation forum users) :
    none ∈ row.2 ↔ Untagged forum row.1.1 := by
  rw [mem_array hrow]
  constructor
  · rintro ⟨user, tag, hmem, hkey, helement⟩
    obtain rfl := Option.map_eq_none_iff.mp helement
    have huntagged := ((mem_joinTags_none hexist).mp hmem).2
    rwa [← hkey]
  · intro huntagged
    obtain ⟨user, huser, hkey⟩ := exists_user hkeys hrow
    rw [← hkey] at huntagged
    exact ⟨user, none, (mem_joinTags_none hexist).mpr ⟨huser, huntagged⟩, hkey, rfl⟩

/-- The name of a tag that a user has. -/
theorem Earned.needsQuotes {userId : Int} {name : List Char} (h : Earned forum userId name)
    (hplain : ∀ tag ∈ forum.tags, needsQuotes tag.name = false) : needsQuotes name = false := by
  obtain ⟨-, -, -, -, -, -, tag, htag, -, rfl⟩ := h
  exact hplain tag htag

/-- For every contents of the tables that the schema allows and names that need no quotes, every
user gets the names of the tags on the posts that the user has commented on. Whoever has no comment,
or one on a post without tags, also gets the tag `NULL`. -/
theorem getTagsForAllUsers_spec (collation : Option (List Char) → Option (List Char) → Bool)
    (hkeys : (view.users.map (·.id)).Nodup) (hexist : forum.TagsExist)
    (hplain : ∀ tag ∈ forum.tags, needsQuotes tag.name = false) :
    TagsOf forum view.users (tagsForAllUsers collation forum view) := by
  refine ⟨?_, ?_, fun result hresult token ↦ ?_⟩
  · exact List.pairwise_map.mpr (selectTags_pairwise hkeys)
  · have hsorted : ((selectTags collation forum view.users).map Prod.fst).Perm _ :=
      ((orderBy_perm _ _).map Prod.fst).trans (keys_groupTags hkeys)
    rw [tagsForAllUsers, List.map_map]
    exact hsorted
  · obtain ⟨row, hrow, rfl⟩ := List.mem_map.mp hresult
    rw [mem_parseTags_arrayText]
    constructor
    · rintro ⟨element, hmem, htoken⟩
      cases element with
      | some name =>
        have hearned := (some_mem_array hkeys hrow name).mp hmem
        rw [tokens_plain (hearned.needsQuotes hplain), List.mem_singleton] at htoken
        exact Or.inl (htoken ▸ hearned)
      | none =>
        rw [tokens_null, List.mem_singleton] at htoken
        exact Or.inr ⟨htoken, (none_mem_array hkeys hexist hrow).mp hmem⟩
    · rintro (hearned | ⟨rfl, huntagged⟩)
      · refine ⟨some token, (some_mem_array hkeys hrow token).mpr hearned, ?_⟩
        rw [tokens_plain (hearned.needsQuotes hplain)]
        exact List.mem_singleton_self _
      · refine ⟨none, (none_mem_array hkeys hexist hrow).mpr huntagged, ?_⟩
        rw [tokens_null]
        exact List.mem_singleton_self _

/-- One user has commented on a post with a tag, another one has no comment. -/
theorem getTagsForAllUsers_two :
    let forum : Forum := ⟨[⟨1, "c", "d", some 2, 5⟩], [⟨7, ['o', 'a', 'k']⟩], [⟨1, 5, 7⟩]⟩
    let view : Tables := ⟨[⟨2, "b@b.b", "d"⟩, ⟨1, "a@a.a", "d"⟩], []⟩
    TagsOf forum view.users (tagsForAllUsers (fun _ _ ↦ true) forum view) :=
  getTagsForAllUsers_spec (fun _ _ ↦ true) (by decide)
    (List.forall_mem_singleton.mpr ⟨⟨7, ['o', 'a', 'k']⟩, List.mem_singleton_self _, rfl⟩)
    (List.forall_mem_singleton.mpr (by decide))

end Results

end StudStuff.Dbms
