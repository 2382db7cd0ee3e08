import Mathlib.Data.Finset.Dedup
import Mathlib.Data.Finset.Insert
import Mathlib.Data.Finset.Lattice.Fold
import StudStuff.Lib.Segments

/-!
# Tags from an array

`ParseTags` of `PostgresTagRepo.cc` decodes the text form of an array of tag names: it strips the
braces and cuts at the commas. The text form is that which PostgreSQL documents (`arrayText`): an
element is put in double quotes, with backslash escapes, when it is empty, when it reads `NULL`, and
when it contains a character that means something in an array.

The decoder knows neither quotes nor nulls. It gives back the names exactly when all elements are
names that need no quotes (`parseTags_arrayText_iff`).
-/

set_option autoImplicit false
set_option relaxedAutoImplicit false

namespace StudStuff.Dbms

open Lib

/-! ### The decoder -/

/-- The loop of `ParseTags`, which takes the text up to the next comma. -/
def parseTagsLoop (input : List Char) (tags : Finset (List Char)) : Finset (List Char) :=
  match _hnext : nextSegment ',' input with
  | none => tags
  | some (tag, rest) => parseTagsLoop rest (if tag = [] then tags else insert tag tags)
termination_by input.length
decreasing_by exact length_nextSegment ‹_›

/-- `ParseTags`. A field may be null. -/
def parseTags : Option (List Char) → Finset (List Char)
  | none => ∅
  | some arr =>
    let arr := if 2 ≤ arr.length then (arr.drop 1).take (arr.length - 2) else arr
    parseTagsLoop arr ∅

/-! ### The text form of an array -/

/-- A character that is white space in the text of an array. -/
def isArraySpace (ch : Char) : Bool := ch ∈ [' ', '\t', '\n', '\r', '\x0b', '\x0c']

/-- An element that has to be put in quotes. -/
def needsQuotes (name : List Char) : Bool :=
  name = [] || name.map Char.toLower = ['n', 'u', 'l', 'l'] ||
    name.any fun ch ↦ ch ∈ ['{', '}', ',', '"', '\\'] || isArraySpace ch

/-- A character inside of quotes. -/
def escape (ch : Char) : List Char := if ch = '"' ∨ ch = '\\' then ['\\', ch] else [ch]

/-- An element in quotes. -/
def quoted (name : List Char) : List Char := '"' :: name.flatMap escape ++ ['"']

/-- The text of an element. -/
def elementText : Option (List Char) → List Char
  | none => ['N', 'U', 'L', 'L']
  | some name => if needsQuotes name then quoted name else name

/-- The text of an array. -/
def arrayText (elements : List (Option (List Char))) : List Char :=
  '{' :: [','].intercalate (elements.map elementText) ++ ['}']

/-- The names in an array. -/
def namesOf (elements : List (Option (List Char))) : Finset (List Char) :=
  (elements.filterMap id).toFinset

/-! ### What is decoded -/

section Decoding

variable {name token : List Char} {elements : List (Option (List Char))}

/-- The loop adds the tokens of the text that is left. -/
theorem mem_parseTagsLoop (input : List Char) (tags : Finset (List Char)) :
    token ∈ parseTagsLoop input tags ↔ token ∈ tokens ',' input ∨ token ∈ tags := by
  fun_induction parseTagsLoop input tags with
  | case1 input tags hnext =>
    rw [nextSegment_eq_none_iff.mp hnext, tokens_nil]
    simp
  | case2 input tags tag rest hnext ih =>
    rw [dite_eq_ite] at ih
    rw [ih, tokens_next hnext]
    split_ifs with hempty
    · rfl
    · rw [Finset.mem_insert, List.mem_cons]
      tauto

/-- The tags of an array are the tokens of its elements. -/
theorem mem_parseTags_arrayText : token ∈ parseTags (some (arrayText elements)) ↔
    ∃ element ∈ elements, token ∈ tokens ',' (elementText element) := by
  have hbody : parseTags (some (arrayText elements)) =
      parseTagsLoop ([','].intercalate (elements.map elementText)) ∅ := by
    simp [parseTags, arrayText]
  rw [hbody, mem_parseTagsLoop, tokens_intercalate, List.flatMap_map, List.mem_flatMap]
  simp

theorem mem_namesOf : name ∈ namesOf elements ↔ some name ∈ elements := by
  simp [namesOf]

/-- An element without quotes is one token. -/
theorem tokens_plain (hplain : needsQuotes name = false) :
    tokens ',' (elementText (some name)) = [name] := by
  have hquotes := hplain
  rw [needsQuotes, Bool.or_eq_false_iff, Bool.or_eq_false_iff, List.any_eq_false,
    decide_eq_false_iff_not] at hquotes
  rw [elementText, hplain]
  apply tokens_of_not_mem hquotes.1.1
  intro hcomma
  exact hquotes.2 ',' hcomma (by simp)

theorem tokens_null : tokens ',' (elementText none) = [['N', 'U', 'L', 'L']] :=
  tokens_of_not_mem (by simp [elementText]) (by simp [elementText])

/-- Escaping adds no commas and loses no characters. -/
theorem escaped (hcomma : ',' ∉ name) :
    ',' ∉ name.flatMap escape ∧ name.length ≤ (name.flatMap escape).length := by
  induction name with
  | nil => exact ⟨List.not_mem_nil, Nat.le_refl 0⟩
  | cons ch name ih =>
    rw [List.mem_cons, not_or] at hcomma
    obtain ⟨hfree, hlength⟩ := ih hcomma.2
    have hescape : ',' ∉ escape ch ∧ 1 ≤ (escape ch).length := by
      rw [escape]
      split_ifs <;> simp [hcomma.1]
    rw [List.flatMap_cons, List.mem_append, not_or, List.length_append, List.length_cons]
    exact ⟨⟨hescape.1, hfree⟩, by omega⟩

/-- A name that contains a quote but no comma is a longer token with a quote. -/
theorem longer_token (hquote : '"' ∈ token) (hcomma : ',' ∉ token) :
    tokens ',' (elementText (some token)) = [quoted token] ∧ '"' ∈ quoted token ∧
      token.length < (quoted token).length := by
  obtain ⟨hfree, hlength⟩ := escaped hcomma
  have hquotes : needsQuotes token = true := by
    rw [needsQuotes, Bool.or_eq_true, List.any_eq_true]
    exact Or.inr ⟨'"', hquote, by simp⟩
  refine ⟨?_, List.mem_cons_self, ?_⟩
  · rw [elementText, if_pos hquotes]
    exact tokens_of_not_mem (by simp [quoted]) (by simp [quoted, hfree])
  · rw [quoted, List.length_append, List.length_cons]
    omega

/-- Where the tags are the names, an element in quotes makes for tags with quotes that are as long
as one likes. The induction is on the length: a tag with a quote is a name, whose quoted form is
the next tag. -/
theorem exists_long_tag (hall : parseTags (some (arrayText elements)) = namesOf elements)
    (hmem : some name ∈ elements) (hquotes : needsQuotes name = true) (length : ℕ) :
    ∃ token ∈ parseTags (some (arrayText elements)), '"' ∈ token ∧ length ≤ token.length := by
  induction length with
  | zero =>
    have hfirst : '"' ∈ quoted name := List.mem_cons_self
    obtain ⟨token, htoken, hquote⟩ := exists_token hfirst (by decide : '"' ≠ ',')
    refine ⟨token, mem_parseTags_arrayText.mpr ⟨some name, hmem, ?_⟩, hquote, Nat.zero_le _⟩
    rw [elementText, if_pos hquotes]
    exact htoken
  | succ length ih =>
    obtain ⟨token, htoken, hquote, hlength⟩ := ih
    obtain ⟨element, _, hfound⟩ := mem_parseTags_arrayText.mp htoken
    obtain ⟨htokens, hquote', hlonger⟩ := longer_token hquote (not_mem_token hfound)
    rw [hall, mem_namesOf] at htoken
    refine ⟨quoted token, mem_parseTags_arrayText.mpr ⟨some token, htoken, ?_⟩, hquote', by omega⟩
    rw [htokens]
    exact List.mem_singleton_self _

/-- Tags that are exactly the names need no quotes. -/
theorem not_needsQuotes (hall : parseTags (some (arrayText elements)) = namesOf elements)
    (hmem : some name ∈ elements) : needsQuotes name = false := by
  rw [Bool.eq_false_iff]
  intro hquotes
  obtain ⟨token, htoken, -, hlong⟩ := exists_long_tag hall hmem hquotes
    ((parseTags (some (arrayText elements))).sup List.length + 1)
  have hle : token.length ≤ (parseTags (some (arrayText elements))).sup List.length :=
    Finset.le_sup htoken
  omega

/-- The tags are the names in an array exactly when every element is a name that needs no quotes. -/
theorem parseTags_arrayText_iff (elements : List (Option (List Char))) :
    parseTags (some (arrayText elements)) = namesOf elements ↔
      ∀ element ∈ elements, ∃ name, element = some name ∧ needsQuotes name = false := by
  constructor
  · intro hall element hmem
    cases element with
    | some name => exact ⟨name, rfl, not_needsQuotes hall hmem⟩
    | none =>
      have hnull : ['N', 'U', 'L', 'L'] ∈ parseTags (some (arrayText elements)) := by
        refine mem_parseTags_arrayText.mpr ⟨none, hmem, ?_⟩
        rw [tokens_null]
        exact List.mem_singleton_self _
      rw [hall, mem_namesOf] at hnull
      cases not_needsQuotes hall hnull
  · intro hplain
    ext token
    rw [mem_parseTags_arrayText, mem_namesOf]
    constructor
    · rintro ⟨element, hmem, htoken⟩
      obtain ⟨name, rfl, hquotes⟩ := hplain element hmem
      rw [tokens_plain hquotes, List.mem_singleton] at htoken
      exact htoken ▸ hmem
    · intro hmem
      obtain ⟨name, heq, hquotes⟩ := hplain _ hmem
      obtain rfl := Option.some.inj heq
      refine ⟨some token, hmem, ?_⟩
      rw [tokens_plain hquotes]
      exact List.mem_singleton_self _

/-- An array of one null, which a user without comments gets, is decoded to the name `NULL`, and the
quotes of a name with a space stay in it. -/
theorem nulls_and_quotes_break_decoding :
    parseTags (some (arrayText [none])) ≠ namesOf [none] ∧
      parseTags (some (arrayText [some ['b', 'i', 'g', ' ', 'o', 'a', 'k']])) ≠
        namesOf [some ['b', 'i', 'g', ' ', 'o', 'a', 'k']] := by
  constructor
  · intro hall
    have hnull : ['N', 'U', 'L', 'L'] ∈ parseTags (some (arrayText [none])) :=
      mem_parseTags_arrayText.mpr ⟨none, by simp, by simp [tokens_null]⟩
    rw [hall, mem_namesOf] at hnull
    simp at hnull
  · intro hall
    cases not_needsQuotes hall (List.mem_singleton_self _)

end Decoding

end StudStuff.Dbms
