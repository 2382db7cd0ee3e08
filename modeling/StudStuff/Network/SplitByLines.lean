import StudStuff.Lib.Chunks
import StudStuff.NetLog.Stream

/-!
# Splitting a payload

`SplitByLines` of `helpers.cc` cuts a text into chunks of some number of lines, and the sender ships
each chunk in a message of its own. The counter of lines is a `size_t`, which wraps around: with
`lines_per_chunk` equal to `0` a chunk is full after `2 ^ 64` lines (`fullChunk`).

The loop cuts the lines of the text into consecutive chunks (`splitByLines_eq`), so nothing is lost
(`splitByLines_lossless`), and the messages carry what `ProcessStream` has written
(`payloads_sentMessages`).
-/

set_option autoImplicit false
set_option relaxedAutoImplicit false

namespace StudStuff.Network

open Lib NetLog

/-! ### The helpers -/

/-- The loop of `SplitByLines`, which has filled some chunks and read some lines of the next one. -/
def splitLoop (linesPerChunk : UInt64) (input chunk : Text) (count : UInt64)
    (result : List Text) : List Text × Text :=
  match _hline : getline input with
  | none => (result, chunk)
  | some (line, rest) =>
    let chunk := chunk ++ (line ++ ['\n'])
    let count := count + 1
    if count = linesPerChunk then splitLoop linesPerChunk rest [] 0 (result ++ [chunk])
    else splitLoop linesPerChunk rest chunk count result
termination_by input.length
decreasing_by all_goals exact length_nextSegment ‹_›

/-- `SplitByLines`. -/
def splitByLines (text : Text) (linesPerChunk : UInt64) : List Text :=
  let (result, chunk) := splitLoop linesPerChunk text [] 0 []
  if chunk = [] then result else result ++ [chunk]

/-- `LogMessage`. -/
structure LogMessage where
  sourceService : Text
  timestampUtc : Text
  payload : Text
  deriving DecidableEq, Repr

/-- `GetLogMessages`. `GetCurrentUTC` is called once for each message. -/
def getLogMessages (getCurrentUTC : ℕ → Text) (payloads : List Text) (logSource : Text) :
    List LogMessage :=
  payloads.zipIdx.map fun (payload, index) ↦ ⟨logSource, getCurrentUTC index, payload⟩

/-- The messages that the sender ships. -/
def sentMessages (getCurrentUTC : ℕ → Text) (input : Text) (filter : CompositeFilter) :
    List LogMessage :=
  getLogMessages getCurrentUTC (splitByLines (processStream input [] filter) 3)
    "ipv4_filter".toList

/-! ### Chunks of lines -/

section Chunks

variable {linesPerChunk count : UInt64} {text chunk : Text} {result : List Text}
  {read : List Text}

/-- The number of lines of a full chunk. -/
def fullChunk (linesPerChunk : UInt64) : ℕ :=
  if linesPerChunk = 0 then 2 ^ 64 else linesPerChunk.toNat

theorem fullChunk_pos (linesPerChunk : UInt64) : 0 < fullChunk linesPerChunk := by
  rw [fullChunk]
  split_ifs with hzero
  · decide
  · exact UInt64.pos_iff_ne_zero.mpr hzero

theorem fullChunk_le (linesPerChunk : UInt64) : fullChunk linesPerChunk ≤ 2 ^ 64 := by
  rw [fullChunk]
  split_ifs
  · exact Nat.le_refl _
  · exact linesPerChunk.toNat_lt.le

/-- The counter says when a chunk is full, although it wraps around. -/
theorem count_eq_iff (hcount : count.toNat < fullChunk linesPerChunk) :
    count + 1 = linesPerChunk ↔ count.toNat + 1 = fullChunk linesPerChunk := by
  have hlt := linesPerChunk.toNat_lt
  rw [← UInt64.toNat_inj, UInt64.toNat_add, UInt64.toNat_one]
  rw [fullChunk] at hcount ⊢
  split_ifs at hcount ⊢ with hzero
  · rw [hzero, UInt64.toNat_zero]
    omega
  · omega

/-- The chunks when the loop has ended. -/
def finish (state : List Text × Text) : List Text :=
  if state.2 = [] then state.1 else state.1 ++ [state.2]

/-- The loop has filled some chunks and read some lines of the next one. What it fills from there on
are the chunks of these lines and of those that are left. -/
theorem finish_splitLoop (linesPerChunk count : UInt64) (text chunk : Text) (result : List Text) :
    ∀ read : List Text, chunk = terminated '\n' read → count.toNat = read.length →
      read.length < fullChunk linesPerChunk →
        finish (splitLoop linesPerChunk text chunk count result) = result ++
          (chunks (fullChunk linesPerChunk) (read ++ lines text)).map (terminated '\n') := by
  have hpos := fullChunk_pos linesPerChunk
  fun_induction splitLoop linesPerChunk text chunk count result with
  | case1 text chunk count result hline =>
    intro read hchunk _ hlt
    rw [nextSegment_eq_none_iff.mp hline, lines, segments_nil, List.append_nil, finish]
    by_cases hread : read = []
    · rw [hchunk, hread, chunks_nil]
      exact (List.append_nil result).symm
    · have hne : chunk ≠ [] := by
        obtain ⟨line, others, rfl⟩ := List.exists_cons_of_ne_nil hread
        rw [hchunk, terminated_cons]
        simp
      rw [if_neg hne, chunks_of_length_le hpos hread hlt.le, List.map_singleton, ← hchunk]
  | case2 text chunk count result line rest hline chunk' count' hfull ih =>
    -- The chunk is full, and the loop goes on with an empty one.
    intro read hchunk hcount hlt
    have hchunk' : chunk' = terminated '\n' (read ++ [line]) := by
      rw [terminated_append, terminated_singleton, ← hchunk]
    have hlength : (read ++ [line]).length = fullChunk linesPerChunk := by
      rw [List.length_append, List.length_singleton, ← hcount]
      exact (count_eq_iff (hcount ▸ hlt)).mp hfull
    have hlines : read ++ lines text = read ++ [line] ++ lines rest := by
      rw [lines, segments_next hline, List.append_cons]
      rfl
    rw [ih [] rfl rfl hpos, hlines, chunks_append hpos hlength, List.map_cons, ← hchunk',
      List.append_assoc, List.nil_append, List.singleton_append]
  | case3 text chunk count result line rest hline chunk' count' hfull ih =>
    intro read hchunk hcount hlt
    have hmore : count.toNat + 1 ≠ fullChunk linesPerChunk :=
      mt (count_eq_iff (hcount ▸ hlt)).mpr hfull
    have hle := fullChunk_le linesPerChunk
    have hcount' : count'.toNat = (read ++ [line]).length := by
      rw [UInt64.toNat_add, UInt64.toNat_one, List.length_append, List.length_singleton]
      omega
    have hlt' : (read ++ [line]).length < fullChunk linesPerChunk := by
      rw [List.length_append, List.length_singleton]
      omega
    have hlines : read ++ lines text = read ++ [line] ++ lines rest := by
      rw [lines, segments_next hline, List.append_cons]
      rfl
    have hchunk' : chunk' = terminated '\n' (read ++ [line]) := by
      rw [terminated_append, terminated_singleton, ← hchunk]
    rw [ih _ hchunk' hcount' hlt', hlines]

/-- `SplitByLines` cuts the lines of a text into consecutive chunks. -/
theorem splitByLines_eq (text : Text) (linesPerChunk : UInt64) :
    splitByLines text linesPerChunk =
      (chunks (fullChunk linesPerChunk) (lines text)).map (terminated '\n') :=
  finish_splitLoop linesPerChunk 0 text [] [] [] rfl rfl (fullChunk_pos linesPerChunk)

/-- The chunks together are the text, which gets a newline at its end if it has none. -/
theorem flatten_splitByLines (text : Text) (linesPerChunk : UInt64) :
    (splitByLines text linesPerChunk).flatten =
      if text = [] ∨ text.getLast? = some '\n' then text else text ++ ['\n'] := by
  have hlines := flatten_chunks (fullChunk_pos linesPerChunk) (lines text)
  rw [splitByLines_eq, ← terminated_flatten, hlines]
  exact terminated_segments '\n' text

/-- The lines of a chunk. -/
theorem lines_chunk {lined : List Text}
    (hmem : lined ∈ chunks (fullChunk linesPerChunk) (lines text)) :
    lines (terminated '\n' lined) = lined := by
  apply segments_terminated
  intro line hline
  have hall := List.mem_flatten_of_mem hmem hline
  rw [flatten_chunks (fullChunk_pos linesPerChunk)] at hall
  exact not_mem_segment hall

/-- All chunks but the last are full. -/
theorem lines_of_mem_dropLast (hmem : chunk ∈ (splitByLines text linesPerChunk).dropLast) :
    (lines chunk).length = fullChunk linesPerChunk := by
  rw [splitByLines_eq, ← List.map_dropLast] at hmem
  obtain ⟨lined, hlined, rfl⟩ := List.mem_map.mp hmem
  rw [lines_chunk (List.dropLast_subset _ hlined)]
  exact length_of_mem_dropLast_chunks (fullChunk_pos linesPerChunk) hlined

/-- The last chunk has at least one line and is at most full. -/
theorem lines_of_getLast? (hlast : (splitByLines text linesPerChunk).getLast? = some chunk) :
    1 ≤ (lines chunk).length ∧ (lines chunk).length ≤ fullChunk linesPerChunk := by
  rw [splitByLines_eq, List.getLast?_map, Option.map_eq_some_iff] at hlast
  obtain ⟨lined, hlined, rfl⟩ := hlast
  rw [lines_chunk (List.mem_of_getLast? hlined)]
  exact length_of_getLast?_chunks (fullChunk_pos linesPerChunk) hlined

/-- Every chunk has a line, so it is not empty and ends in a newline. -/
theorem ends_of_mem (hmem : chunk ∈ splitByLines text linesPerChunk) :
    chunk ≠ [] ∧ chunk.getLast? = some '\n' := by
  rw [splitByLines_eq] at hmem
  obtain ⟨lined, hlined, rfl⟩ := List.mem_map.mp hmem
  have hends := getLast?_terminated '\n' (ne_nil_of_mem_chunks (fullChunk_pos linesPerChunk) hlined)
  refine ⟨?_, hends⟩
  intro hnil
  rw [hnil] at hends
  cases hends

/-- With `0` lines for each chunk there is at most one chunk, unless the text has `2 ^ 64` lines. -/
theorem length_splitByLines_zero (hlt : (lines text).length < 2 ^ 64) :
    (splitByLines text 0).length ≤ 1 := by
  have hlines := flatten_chunks (fullChunk_pos 0) (lines text)
  rw [splitByLines_eq, List.length_map]
  by_contra hmore
  cases hchunks : chunks (fullChunk 0) (lines text) with
  | nil => simp [hchunks] at hmore
  | cons first others =>
    rw [hchunks, List.length_cons] at hmore
    have hothers : others ≠ [] := List.length_pos_iff.mp (by omega)
    have hmem : first ∈ (chunks (fullChunk 0) (lines text)).dropLast := by
      rw [hchunks, List.dropLast_cons_of_ne_nil hothers]
      exact List.mem_cons_self
    have hfirst : first.length = 2 ^ 64 := length_of_mem_dropLast_chunks (fullChunk_pos 0) hmem
    rw [hchunks] at hlines
    have hlength := congrArg List.length hlines
    rw [List.flatten_cons, List.length_append] at hlength
    omega

/-- Splitting a text loses nothing: the chunks together are the text, which gets a newline at its
end if it has none, and they have the number of lines that was asked for. -/
theorem splitByLines_lossless (text : Text) (linesPerChunk : UInt64) :
    (splitByLines text linesPerChunk).flatten =
        (if text = [] ∨ text.getLast? = some '\n' then text else text ++ ['\n']) ∧
      (∀ chunk ∈ splitByLines text linesPerChunk, chunk ≠ [] ∧ chunk.getLast? = some '\n') ∧
      (1 ≤ linesPerChunk →
        (∀ chunk ∈ (splitByLines text linesPerChunk).dropLast,
          (lines chunk).length = linesPerChunk.toNat) ∧
        ∀ chunk ∈ (splitByLines text linesPerChunk).getLast?,
          1 ≤ (lines chunk).length ∧ (lines chunk).length ≤ linesPerChunk.toNat) ∧
      (linesPerChunk = 0 → (lines text).length < 2 ^ 64 →
        (splitByLines text linesPerChunk).length ≤ 1) := by
  refine ⟨flatten_splitByLines text linesPerChunk, fun _ ↦ ends_of_mem, ?_, ?_⟩
  · intro hpos
    have hfull : fullChunk linesPerChunk = linesPerChunk.toNat :=
      if_neg (UInt64.pos_iff_ne_zero.mp (UInt64.lt_of_lt_of_le (by decide) hpos))
    rw [← hfull]
    exact ⟨fun _ ↦ lines_of_mem_dropLast, fun _ ↦ lines_of_getLast?⟩
  · rintro rfl hlt
    exact length_splitByLines_zero hlt

end Chunks

/-! ### The sender -/

section Sender

variable (getCurrentUTC : ℕ → Text) (input : Text) (filter : CompositeFilter)

theorem payloads_getLogMessages (payloads : List Text) (logSource : Text) :
    (getLogMessages getCurrentUTC payloads logSource).map (·.payload) = payloads := by
  rw [getLogMessages, List.map_map]
  exact List.zipIdx_map_fst 0 payloads

/-- The messages together carry the lines that the filter accepts. -/
theorem payloads_sentMessages :
    ((sentMessages getCurrentUTC input filter).map (·.payload)).flatten =
      accepted filter.isMatch input := by
  have hends : accepted filter.isMatch input = [] ∨
      (accepted filter.isMatch input).getLast? = some '\n' := by
    by_cases hnone : (lines input).filter (accepts filter.isMatch) = []
    · left
      rw [accepted, hnone, List.flatMap_nil]
    · exact Or.inr (getLast?_terminated '\n' hnone)
  rw [sentMessages, payloads_getLogMessages, flatten_splitByLines, processStream_eq,
    List.nil_append, if_pos hends]

end Sender

end StudStuff.Network
