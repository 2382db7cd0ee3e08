import Mathlib.Data.List.TakeWhile
import Mathlib.Tactic.SplitIfs

/-!
# Reading a list segment by segment

A scanner reads as long as a test accepts (`scan_iff`). A separator cuts a list into segments: those
that end with a separator, and what stands after the last one unless it is empty (`segments`). A
reader takes one segment after another (`nextSegment`, `segment_induction`).

The segments and their separators are the list again (`terminated_segments`), and the segments of a
list put together from segments are these (`segments_terminated`). A tokenizer drops the empty
segments (`tokens`), so the tokens of a list that is put together with separators are those of its
parts (`tokens_intercalate`).
-/

set_option autoImplicit false
set_option relaxedAutoImplicit false

namespace StudStuff.Lib

variable {α : Type}

/-- What stands before the first element that a test rejects. -/
theorem take_length_takeWhile (p : α → Bool) (text : List α) :
    text.take (text.takeWhile p).length = text.takeWhile p :=
  (List.prefix_iff_eq_take.mp (List.takeWhile_prefix p)).symm

/-- A scanner that reads as long as a test accepts: what it has read was accepted, and what it
leaves begins with something that was not. -/
theorem scan_iff {p : α → Bool} {text front rest : List α} :
    text.takeWhile p = front ∧ text.dropWhile p = rest ↔
      text = front ++ rest ∧ (∀ ch ∈ front, p ch = true) ∧ ∀ ch ∈ rest.head?, p ch = false := by
  constructor
  · rintro ⟨rfl, rfl⟩
    refine ⟨List.takeWhile_append_dropWhile.symm, ?_, ?_⟩
    · intro ch hmem
      exact List.mem_takeWhile_imp hmem
    · intro ch hmem
      have hnot := List.head?_dropWhile_not p text
      rw [Option.mem_def.mp hmem] at hnot
      simpa using hnot
  · rintro ⟨rfl, hfront, hrest⟩
    rw [List.takeWhile_append_of_pos hfront, List.dropWhile_append_of_pos hfront]
    cases rest with
    | nil => exact ⟨List.append_nil front, rfl⟩
    | cons ch rest =>
      have hstops : ¬p ch = true := by simp [hrest ch rfl]
      rw [List.takeWhile_cons_of_neg hstops, List.append_nil, List.dropWhile_cons_of_neg hstops]
      exact ⟨rfl, rfl⟩

/-- The text of some segments, each with a separator. -/
def terminated (separator : α) (pieces : List (List α)) : List α :=
  pieces.flatMap (· ++ [separator])

theorem terminated_cons (separator : α) (segment : List α) (pieces : List (List α)) :
    terminated separator (segment :: pieces) =
      segment ++ separator :: terminated separator pieces := by
  rw [terminated, List.flatMap_cons, List.append_assoc, terminated, List.singleton_append]

theorem terminated_append (separator : α) (pieces pieces' : List (List α)) :
    terminated separator (pieces ++ pieces') =
      terminated separator pieces ++ terminated separator pieces' :=
  List.flatMap_append

theorem terminated_singleton (separator : α) (segment : List α) :
    terminated separator [segment] = segment ++ [separator] :=
  List.flatMap_singleton _ _

theorem terminated_flatten (separator : α) (groups : List (List (List α))) :
    terminated separator groups.flatten = (groups.map (terminated separator)).flatten := by
  induction groups with
  | nil => rfl
  | cons group groups ih =>
    rw [List.flatten_cons, terminated_append, ih, List.map_cons, List.flatten_cons]

/-- A text of segments ends with a separator. -/
theorem getLast?_terminated (separator : α) {pieces : List (List α)} (hne : pieces ≠ []) :
    (terminated separator pieces).getLast? = some separator := by
  rw [← List.dropLast_concat_getLast hne, terminated_append, terminated_singleton]
  simp

variable [DecidableEq α] {separator : α} {text segment rest : List α} {pieces : List (List α)}

/-- The segments of a list. -/
def segments (separator : α) (text : List α) : List (List α) :=
  let pieces := text.splitOn separator
  if pieces.getLast? = some [] then pieces.dropLast else pieces

/-- The first segment, without its separator, and the rest of the list. There is none when the list
is empty. -/
def nextSegment (separator : α) : List α → Option (List α × List α)
  | [] => none
  | text => some (text.takeWhile (· != separator), (text.dropWhile (· != separator)).drop 1)

/-- The first segment ends with a separator, or it is all of a list that is not empty. -/
theorem nextSegment_cases (hnext : nextSegment separator text = some (segment, rest)) :
    separator ∉ segment ∧
      (text = segment ++ separator :: rest ∨ text = segment ∧ segment ≠ [] ∧ rest = []) := by
  cases text with
  | nil => cases hnext
  | cons first text =>
    obtain ⟨rfl, rfl⟩ := Prod.mk.inj (Option.some.inj hnext)
    have hsplit := List.takeWhile_append_dropWhile (p := (· != separator)) (l := first :: text)
    constructor
    · intro hmem
      have hne := List.mem_takeWhile_imp hmem
      rw [bne_self_eq_false] at hne
      cases hne
    · have hhead := List.head?_dropWhile_not (· != separator) (first :: text)
      cases hdrop : (first :: text).dropWhile (· != separator) with
      | nil =>
        rw [hdrop, List.append_nil] at hsplit
        refine Or.inr ⟨hsplit.symm, ?_, rfl⟩
        rw [hsplit]
        exact List.cons_ne_nil first text
      | cons last rest =>
        rw [hdrop, List.head?_cons] at hhead
        have hlast : last = separator := by simpa using hhead
        rw [hdrop, hlast] at hsplit
        exact Or.inl hsplit.symm

/-- The rest of a list is shorter. -/
theorem length_nextSegment (hnext : nextSegment separator text = some (segment, rest)) :
    rest.length < text.length := by
  obtain ⟨-, rfl | ⟨rfl, hne, rfl⟩⟩ := nextSegment_cases hnext
  · rw [List.length_append, List.length_cons]
    omega
  · exact List.length_pos_iff.mpr hne

theorem segments_nil (separator : α) : segments separator [] = [] := rfl

/-- The first segment is the first of the segments. -/
theorem segments_next (hnext : nextSegment separator text = some (segment, rest)) :
    segments separator text = segment :: segments separator rest := by
  obtain ⟨hfree, rfl | ⟨rfl, hne, rfl⟩⟩ := nextSegment_cases hnext
  · have hpieces := List.splitOn_ne_nil separator rest
    rw [segments, segments, List.splitOn_append_cons_self_of_not_mem hfree]
    simp only [List.getLast?_cons_of_ne_nil hpieces, List.dropLast_cons_of_ne_nil hpieces]
    split_ifs <;> rfl
  · rw [segments, List.splitOn_eq_singleton hfree, segments_nil]
    exact if_neg fun hlast ↦ hne (Option.some.inj hlast)

/-- There is a segment unless the list is empty. -/
theorem nextSegment_eq_none_iff : nextSegment separator text = none ↔ text = [] := by
  cases text with
  | nil => exact iff_of_true rfl rfl
  | cons first text => exact iff_of_false (fun hnone ↦ nomatch hnone) (List.cons_ne_nil first text)

/-- The segment before a separator. -/
theorem nextSegment_append (hfree : separator ∉ segment) (rest : List α) :
    nextSegment separator (segment ++ separator :: rest) = some (segment, rest) := by
  have hpass : ∀ ch ∈ segment, (ch != separator) = true := by
    intro ch hmem
    exact bne_iff_ne.mpr fun heq ↦ hfree (heq ▸ hmem)
  rw [nextSegment, List.takeWhile_append_of_pos hpass, List.dropWhile_append_of_pos hpass]
  · simp
  · simp

/-- The first occurrence of a separator. -/
theorem idxOf?_eq (separator : α) (text : List α) : text.idxOf? separator =
    if separator ∈ text then some (text.takeWhile (· != separator)).length else none := by
  induction text with
  | nil => rfl
  | cons first text ih =>
    rw [List.idxOf?_cons, ih]
    by_cases hfirst : first = separator
    · simp [hfirst]
    · simp [hfirst, Ne.symm hfirst]

/-! ### Segments with their separators -/

/-- Every rule about a list that is read segment by segment. -/
theorem segment_induction {motive : List α → Prop} (separator : α) (nil : motive [])
    (next : ∀ text segment rest, nextSegment separator text = some (segment, rest) →
      motive rest → motive text) (text : List α) : motive text := by
  cases hnext : nextSegment separator text with
  | none =>
    rw [nextSegment_eq_none_iff.mp hnext]
    exact nil
  | some step =>
    exact next text step.1 step.2 hnext (segment_induction separator nil next step.2)
termination_by text.length
decreasing_by exact length_nextSegment hnext

/-- A segment does not contain the separator. -/
theorem not_mem_segment (hmem : segment ∈ segments separator text) : separator ∉ segment := by
  induction text using segment_induction separator with
  | nil => cases hmem
  | next text first rest hnext ih =>
    rw [segments_next hnext, List.mem_cons] at hmem
    rcases hmem with rfl | hmem
    · exact (nextSegment_cases hnext).1
    · exact ih hmem

/-- The segments of a text with their separators are the text, which gets a separator at its end if
it has none. -/
theorem terminated_segments (separator : α) (text : List α) :
    terminated separator (segments separator text) =
      if text = [] ∨ text.getLast? = some separator then text else text ++ [separator] := by
  induction text using segment_induction separator with
  | nil => rfl
  | next text first rest hnext ih =>
    rw [segments_next hnext, terminated_cons, ih]
    obtain ⟨hfree, rfl | ⟨rfl, hne, rfl⟩⟩ := nextSegment_cases hnext
    · by_cases hrest : rest = []
      · simp [hrest]
      · simp [hrest, List.getLast?_cons_of_ne_nil]
        split_ifs <;> simp
    · have hlast : text.getLast? ≠ some separator := by
        intro hlast
        exact hfree (List.mem_of_getLast? hlast)
      rw [if_neg (not_or.mpr ⟨hne, hlast⟩)]
      rfl

/-- The segments of a text that was put together from segments. -/
theorem segments_terminated (hfree : ∀ segment ∈ pieces, separator ∉ segment) :
    segments separator (terminated separator pieces) = pieces := by
  induction pieces with
  | nil => rfl
  | cons first pieces ih =>
    obtain ⟨hfirst, hpieces⟩ := List.forall_mem_cons.mp hfree
    rw [terminated_cons, segments_next (nextSegment_append hfirst _), ih hpieces]

/-! ### Tokens -/

/-- The segments of a text that are not empty. -/
def tokens (separator : α) (text : List α) : List (List α) :=
  (segments separator text).filter (· ≠ [])

theorem tokens_eq (separator : α) (text : List α) :
    tokens separator text = (text.splitOn separator).filter (· ≠ []) := by
  rw [tokens, segments]
  split_ifs with hlast
  · obtain ⟨front, hpieces⟩ := List.getLast?_eq_some_iff.mp hlast
    rw [hpieces, List.dropLast_concat, List.filter_append]
    exact (List.append_nil _).symm
  · rfl

theorem tokens_nil (separator : α) : tokens separator [] = [] := rfl

theorem tokens_next (hnext : nextSegment separator text = some (segment, rest)) :
    tokens separator text =
      if segment = [] then tokens separator rest else segment :: tokens separator rest := by
  rw [tokens, segments_next hnext, List.filter_cons, tokens]
  simp

/-- The tokens before and after a separator. -/
theorem tokens_append (separator : α) (text text' : List α) :
    tokens separator (text ++ separator :: text') =
      tokens separator text ++ tokens separator text' := by
  rw [tokens_eq, tokens_eq, tokens_eq, List.splitOn_append_cons_self, List.filter_append]

/-- A text without a separator is one token. -/
theorem tokens_of_not_mem (hne : text ≠ []) (hfree : separator ∉ text) :
    tokens separator text = [text] := by
  rw [tokens_eq, List.splitOn_eq_singleton hfree]
  simp [hne]

theorem not_mem_token (hmem : segment ∈ tokens separator text) : separator ∉ segment :=
  not_mem_segment (List.mem_filter.mp hmem).1

/-- Every element that is not the separator is in a token. -/
theorem exists_token {ch : α} (hmem : ch ∈ text) (hne : ch ≠ separator) :
    ∃ token ∈ tokens separator text, ch ∈ token := by
  induction text using segment_induction separator with
  | nil => cases hmem
  | next text segment rest hnext ih =>
    rw [tokens_next hnext]
    have hwhere : ch ∈ segment ∨ ch ∈ rest := by
      obtain ⟨-, rfl | ⟨rfl, -, -⟩⟩ := nextSegment_cases hnext
      · simpa [hne] using hmem
      · exact Or.inl hmem
    rcases hwhere with hsegment | hrest
    · rw [if_neg (List.ne_nil_of_mem hsegment)]
      exact ⟨segment, List.mem_cons_self, hsegment⟩
    · obtain ⟨token, htoken, hch⟩ := ih hrest
      refine ⟨token, ?_, hch⟩
      split_ifs
      · exact htoken
      · exact List.mem_cons_of_mem _ htoken

/-- The tokens of a text that is put together with separators are those of its parts. -/
theorem tokens_intercalate (separator : α) (pieces : List (List α)) :
    tokens separator ([separator].intercalate pieces) = pieces.flatMap (tokens separator) := by
  induction pieces with
  | nil => rfl
  | cons piece pieces ih =>
    cases pieces with
    | nil => simp
    | cons next pieces =>
      rw [List.intercalate_cons_cons, List.append_assoc, List.singleton_append, tokens_append, ih]
      exact List.flatMap_cons.symm

end StudStuff.Lib
