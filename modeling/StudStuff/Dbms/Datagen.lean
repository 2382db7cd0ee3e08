import Mathlib.Data.List.Dedup
import Mathlib.Data.List.DropRight
import StudStuff.Dbms.TagsQuery
import StudStuff.Lib.Csv
import StudStuff.Lib.Decimal
import StudStuff.Lib.Execution

/-!
# Generating the data

`generate_data.py`, with the five files that it writes. What `random` and Faker give is a `Source`,
an answer for every request at every draw, so that a statement about all sources is one about every
outcome. The loops that draw until they get something new have a bound on their rounds. A row is
written as the list of its cells, and `add_my_comment_to_csv` reads the comments back from the file.
-/

set_option autoImplicit false
set_option relaxedAutoImplicit false

namespace StudStuff.Dbms

open Lib Lib.Csv

/-! ### Rows as text -/

/-- `str(number)`. -/
def str : Int → List Char
  | .ofNat number => Nat.toDigits 10 number
  | .negSucc number => '-' :: Nat.toDigits 10 (number + 1)

/-- A cell that may be `None`, which is written as nothing. -/
def optionalCell {α : Type} (text : α → List Char) : Option α → List Char
  | none => []
  | some value => text value

def UserRow.cells (user : UserRow) : List (List Char) :=
  [str user.id, user.email.toList, user.date.toList]

def PostRow.cells (post : PostRow) : List (List Char) :=
  [str post.id, post.title.toList, optionalCell String.toList post.description, post.date.toList,
    post.status.toList, optionalCell str post.authorId]

def CommentRow.cells (comment : CommentRow) : List (List Char) :=
  [str comment.id, comment.content.toList, comment.date.toList, optionalCell str comment.authorId,
    str comment.postId]

def TagRow.cells (tag : TagRow) : List (List Char) := [str tag.id, tag.name]

def PostTagRow.cells (postTag : PostTagRow) : List (List Char) :=
  [str postTag.id, str postTag.postId, str postTag.tagId]

/-- The files of `DATA_DIR`. -/
structure Files where
  users : List Char
  posts : List Char
  tags : List Char
  comments : List Char
  postTags : List Char
  deriving DecidableEq, Repr

/-! ### Random values -/

/-- `datetime`. -/
structure DateTime where
  year : ℕ
  month : ℕ
  day : ℕ
  hour : ℕ
  minute : ℕ
  second : ℕ
  deriving DecidableEq, Repr

/-- A number with at least two digits. -/
def twoDigits (number : ℕ) : List Char :=
  if number < 10 then '0' :: Nat.toDigits 10 number else Nat.toDigits 10 number

/-- `strftime("%Y-%m-%d %H:%M:%S")`. -/
def DateTime.strftime (time : DateTime) : String :=
  String.ofList (Nat.toDigits 10 time.year ++ '-' :: (twoDigits time.month ++
    '-' :: (twoDigits time.day ++ ' ' :: (twoDigits time.hour ++
      ':' :: (twoDigits time.minute ++ ':' :: twoDigits time.second)))))

/-- The texts that are asked of Faker. -/
inductive FakerCall
  | email
  | sentence (nbWords : Int)
  | paragraph (nbSentences : Int)
  | text (maxNbChars : Int)
  | word
  deriving DecidableEq, Repr

/-- What `random` and Faker answer at each draw. -/
structure Source where
  number : ℕ → ℕ
  text : FakerCall → ℕ → String
  /-- `date_time_between`, with the text for the start and now for the end. -/
  time : String → ℕ → DateTime
  /-- `str.capitalize`. -/
  capitalize : String → String

/-- Why the generator stops without a result. -/
inductive GenStop
  | valueError
  | csvError
  /-- The bound on the rounds of a loop is used up. -/
  | endless
  deriving DecidableEq, Repr

/-- A program that draws. The state counts the draws. -/
abbrev GenM := EStateM GenStop ℕ

def draw : GenM ℕ := modifyGet fun drawn ↦ (drawn, drawn + 1)

namespace Source

variable (source : Source)

/-- `random.randint(low, high)`. -/
def randint (low high : Int) : GenM Int := do
  if high < low then
    throw .valueError
  else
    let drawn ← draw
    return low + source.number drawn % (high - low + 1)

/-- `random.choices(population, weights)[0]`, for weights that are not zero. -/
def choices {α : Type} [Inhabited α] (population : List α) : GenM α := do
  let drawn ← draw
  return population.getD (source.number drawn % population.length) default

/-- `program if random.random() < probability else None`. -/
def optionally {α : Type} (program : GenM α) : GenM (Option α) := do
  let drawn ← draw
  if source.number drawn % 2 = 0 then
    let value ← program
    return some value
  else
    return none

/-- `random.sample(population, k)`. -/
def sample {α : Type} : List α → ℕ → GenM (List α)
  | _, 0 => return []
  | population, k + 1 => do
    let drawn ← draw
    let index := source.number drawn % population.length
    if hindex : index < population.length then
      let values ← sample (population.eraseIdx index) k
      return population[index] :: values
    else
      throw .valueError

/-- `random.shuffle(values)`. -/
def shuffle {α : Type} (values : List α) : GenM (List α) := source.sample values values.length

def faker (call : FakerCall) : GenM String := do
  let drawn ← draw
  return source.text call drawn

def randomDatetime (minMonths maxMonths : Int) : GenM DateTime := do
  let months ← source.randint minMonths maxMonths
  let drawn ← draw
  return source.time ("-" ++ String.ofList (str months) ++ "m") drawn

end Source

/-! ### The tables -/

structure Config where
  numUsers : Int
  numPosts : Int
  numComments : Int
  numTags : Int
  numPostTags : Int
  deriving DecidableEq, Repr

def STATUSES : List String := ["draft", "published", "archived"]

def MY_COMMENT : String := "This is the g3m comment."

/-- `range(1, count + 1)`. -/
def rangeFromOne (count : Int) : List Int :=
  (List.range count.toNat).map fun index : ℕ ↦ (index : Int) + 1

/-- `text.rstrip(".")`. -/
def rstripDots (text : String) : String := String.ofList (text.toList.rdropWhile (· = '.'))

/-- `values[:count]`. -/
def sliceTo {α : Type} (values : List α) (count : Int) : List α :=
  if 0 ≤ count then values.take count.toNat else values.take (values.length - count.natAbs)

/-- The values of `tag_categories`. -/
def tagCategories : List (List String) :=
  [["AI", "Machine Learning", "Cloud Computing", "DevOps", "Cybersecurity", "Data Science",
      "Blockchain", "IoT", "5G", "Quantum Computing"],
    ["Physics", "Biology", "Chemistry", "Astronomy", "Geology", "Genetics", "Mathematics",
      "Neuroscience", "Ecology"],
    ["Startups", "Marketing", "Leadership", "Strategy", "Finance", "Innovation",
      "Entrepreneurship", "Management", "Analytics"],
    ["Health", "Travel", "Food", "Fitness", "Relationships", "Productivity", "Mindfulness",
      "Wellness", "Nutrition"],
    ["Art", "Literature", "History", "Music", "Cinema", "Philosophy", "Poetry", "Theater",
      "Photography"],
    ["Python", "JavaScript", "Rust", "Go", "React", "Node.js", "SQL", "Docker", "Kubernetes",
      "AWS", "Git", "Linux"]]

namespace Source

variable (source : Source)

/-- The loop of `generate_users`. -/
def usersLoop (count : Int) : ℕ → Int → List String → List UserRow → GenM (List UserRow)
  | 0, _, _, _ => throw .endless
  | fuel + 1, userId, usedEmails, users =>
    if userId ≤ count then do
      let email ← source.faker .email
      if email ∈ usedEmails then
        usersLoop count fuel userId usedEmails users
      else
        let createdAt ← source.randomDatetime 12 24
        usersLoop count fuel (userId + 1) (usedEmails ++ [email])
          (users ++ [⟨userId, email, createdAt.strftime⟩])
    else
      return users

def generateUsers (count : Int) (fuel : ℕ) : GenM (List UserRow) :=
  source.usersLoop count fuel 1 [] []

/-- A round of the loop of `generate_posts`. -/
def generatePost (numUsers postId : Int) : GenM PostRow := do
  let nbWords ← source.randint 3 8
  let sentence ← source.faker (.sentence nbWords)
  let description ← source.optionally do
    let nbSentences ← source.randint 1 3
    source.faker (.paragraph nbSentences)
  let createdAt ← source.randomDatetime 6 18
  let status ← source.choices STATUSES
  let authorId ← source.optionally (source.randint 1 numUsers)
  return ⟨postId, rstripDots sentence, description, createdAt.strftime, status, authorId⟩

def generatePosts (count numUsers : Int) : GenM (List PostRow) :=
  (rangeFromOne count).mapM (source.generatePost numUsers)

/-- A round of the loop of `generate_comments`. -/
def generateComment (numUsers numPosts commentId : Int) : GenM CommentRow := do
  let content ← source.faker (.text 250)
  let createdAt ← source.randomDatetime 1 12
  let authorId ← source.optionally (source.randint 1 numUsers)
  let postId ← source.randint 1 numPosts
  return ⟨commentId, content, createdAt.strftime, authorId, postId⟩

def generateComments (count numUsers numPosts : Int) : GenM (List CommentRow) :=
  (rangeFromOne count).mapM (source.generateComment numUsers numPosts)

/-- `add_my_comment_to_csv`, from the old contents of the file to the new. -/
def addMyCommentToCsv (numUsers numPosts : Int) (file : List Char) : GenM (List Char) :=
  match readRows (universalNewlines file) with
  | none => throw .csvError
  | some comments => do
    let newCommentId : Int := comments.length + 1
    let createdAt ← source.randomDatetime 1 12
    let authorId ← source.randint 1 numUsers
    let postId ← source.randint 1 numPosts
    let comment : CommentRow :=
      ⟨newCommentId, MY_COMMENT, createdAt.strftime, some authorId, postId⟩
    return writeRows (comments ++ [comment.cells])

/-- The loop of `generate_tags`, which makes up more tags. -/
def tagsLoop (count : Int) (allTags : List String) :
    ℕ → List String → List String → GenM (List String)
  | 0, _, _ => throw .endless
  | fuel + 1, usedTags, generatedTags =>
    if allTags.length + generatedTags.length < count then do
      let word ← source.faker .word
      let tag := source.capitalize word
      if tag ∉ usedTags ∧ 2 < tag.length then
        tagsLoop count allTags fuel (usedTags ++ [tag]) (generatedTags ++ [tag])
      else
        tagsLoop count allTags fuel usedTags generatedTags
    else
      return generatedTags

def generateTags (count : Int) (fuel : ℕ) : GenM (List TagRow) := do
  -- In which order the set is listed makes no difference, for the list is shuffled.
  let allTags := tagCategories.flatten.dedup
  let generatedTags ← source.tagsLoop count allTags fuel allTags []
  let allTags ← source.shuffle (allTags ++ generatedTags)
  return (sliceTo allTags count).mapIdx fun index tag ↦ ⟨index + 1, tag.toList⟩

end Source

/-- The inner loop of `generate_post_tags`, and whether the count is reached. `unique_pairs` are the
pairs of the rows so far. -/
def linkTags (count postId : Int) : List Int → List PostTagRow → List PostTagRow × Bool
  | [], rows => (rows, false)
  | tagId :: tagIds, rows =>
    if (postId, tagId) ∈ rows.map fun row ↦ (row.postId, row.tagId) then
      linkTags count postId tagIds rows
    else
      let rows := rows ++ [⟨rows.length + 1, postId, tagId⟩]
      if count ≤ rows.length then (rows, true) else linkTags count postId tagIds rows

namespace Source

variable (source : Source)

/-- The loop of `generate_post_tags`. -/
def postTagsLoop (count numTags : Int) : List Int → List PostTagRow → GenM (List PostTagRow)
  | [], rows => return rows
  | postId :: postIds, rows => do
    let size ← source.randint 1 5
    let selectedTags ← source.sample (rangeFromOne numTags) size.toNat
    match linkTags count postId selectedTags rows with
    | (rows, true) => return rows
    | (rows, false) => postTagsLoop count numTags postIds rows

def generatePostTags (count numPosts numTags : Int) : GenM (List PostTagRow) :=
  source.postTagsLoop count numTags (rangeFromOne numPosts) []

/-- `generate_all_data`. -/
def generateAllData (config : Config) (fuel : ℕ) : GenM Files := do
  let users ← source.generateUsers config.numUsers fuel
  let posts ← source.generatePosts config.numPosts config.numUsers
  let tags ← source.generateTags config.numTags fuel
  let comments ← source.generateComments config.numComments config.numUsers config.numPosts
  let commentsFile ← source.addMyCommentToCsv config.numUsers config.numPosts
    (writeRows (comments.map CommentRow.cells))
  let postTags ← source.generatePostTags config.numPostTags config.numPosts config.numTags
  return {
    users := writeRows (users.map UserRow.cells)
    posts := writeRows (posts.map PostRow.cells)
    tags := writeRows (tags.map TagRow.cells)
    comments := commentsFile
    postTags := writeRows (postTags.map PostTagRow.cells) }

end Source

end StudStuff.Dbms
