import Mathlib.Data.List.Forall2
import StudStuff.Lib.Sink
import StudStuff.NetLog.Stream

/-!
# Output streams that fail

`Process` does not look at the state of its output stream. When a write or a flush fails, the rest
of the input is still read and filtered, and flushes empty the buffer without writing anything. So
the stream has a prefix of the accepted lines, nothing is kept for a later call, and the buffer does
not grow beyond the room that was reserved for it (`processAllTo_handles`).
-/

set_option autoImplicit false
set_option relaxedAutoImplicit false

namespace StudStuff.NetLog

open StudStuff.Lib

/-! ### Writing to a stream that may fail -/

namespace StreamProcessor

/-- `std::ranges::copy` to a `std::ostream_iterator` with a newline behind each line. -/
def writeEntries : List LogEntry → Sink Char → Sink Char
  | [], output => output
  | entry :: entries, output => writeEntries entries ((output.put entry.line).put ['\n'])

/-- `FlushBuffer`, when the stream may fail. -/
def flushBufferTo (processor : StreamProcessor) (output : Sink Char) :
    StreamProcessor × Sink Char :=
  if processor.buffer = [] then (processor, output)
  else ({ processor with buffer := [] }, (writeEntries processor.buffer output).flush)

/-- The variables of the loop of `Process`. -/
structure Progress where
  input : Text
  lineNumber : ℕ
  processor : StreamProcessor
  output : Sink Char
  deriving DecidableEq, Repr

/-- One round of the loop, for a line that was read. -/
def Progress.round (filter : IPv4Address → Bool) (line rest : Text) (now : Progress) : Progress :=
  let lineNumber := now.lineNumber + 1
  let processor := now.processor.keep filter line lineNumber
  if processor.batchSize ≤ processor.buffer.length then
    let (processor, output) := processor.flushBufferTo now.output
    ⟨rest, lineNumber, processor, output⟩
  else ⟨rest, lineNumber, processor, now.output⟩

theorem Progress.round_input (filter : IPv4Address → Bool) (line rest : Text) (now : Progress) :
    (now.round filter line rest).input = rest := by
  rw [round]
  split_ifs <;> rfl

/-- The loop of `Process`. -/
def processLoopTo (filter : IPv4Address → Bool) (now : Progress) : Progress :=
  match _hline : getline now.input with
  | none => now
  | some (line, rest) => processLoopTo filter (now.round filter line rest)
termination_by now.input.length
decreasing_by
  rw [Progress.round_input]
  exact length_nextSegment ‹_›

/-- `Process`, when the stream may fail. -/
def processTo (filter : IPv4Address → Bool) (input : Text) (processor : StreamProcessor)
    (output : Sink Char) : StreamProcessor × Sink Char :=
  let done := processLoopTo filter ⟨input, 0, processor, output⟩
  if done.processor.buffer = [] then (done.processor, done.output)
  else done.processor.flushBufferTo done.output

/-- One call of `Process` with an output stream that may fail. -/
structure CallTo where
  filter : IPv4Address → Bool
  input : Text
  output : Sink Char

/-- Calls of `Process` on one processor: the processor and the output stream after each call. -/
def processAllTo (processor : StreamProcessor) : List CallTo → List (StreamProcessor × Sink Char)
  | [] => []
  | call :: calls =>
    let after := processTo call.filter call.input processor call.output
    after :: after.1.processAllTo calls

end StreamProcessor

/-! ### What is written -/

namespace StreamProcessor

section Written

variable (filter : IPv4Address → Bool) (processor : StreamProcessor) (output : Sink Char)

theorem wrote_entries (entries : List LogEntry) (output : Sink Char) :
    Wrote output (writeEntries entries output)
      (entries.flatMap fun entry ↦ entry.line ++ ['\n']) := by
  induction entries generalizing output with
  | nil => exact .refl output
  | cons entry entries ih =>
    rw [List.flatMap_cons]
    exact ((Wrote.put output entry.line).trans (.put _ ['\n'])).trans (ih _)

/-- A flush gives the pending lines to the stream and empties the buffer. -/
theorem flushBufferTo_wrote : (processor.flushBufferTo output).1 = ⟨[], processor.batchSize⟩ ∧
    Wrote output (processor.flushBufferTo output).2 processor.pending := by
  rw [flushBufferTo]
  split_ifs with hempty
  · rw [pending, hempty, List.flatMap_nil, ← hempty]
    exact ⟨rfl, .refl output⟩
  · have hflushed := (wrote_entries processor.buffer output).trans (.flush _)
    rw [List.append_nil] at hflushed
    exact ⟨rfl, hflushed⟩

/-- From one point of the loop to another, some text was given to the stream. Together with what is
pending it is what was pending before and some contribution. -/
def Advances (now later : Progress) (contributed : Text) : Prop :=
  ∃ given, Wrote now.output later.output given ∧
    given ++ later.processor.pending = now.processor.pending ++ contributed

theorem Advances.trans {now later last : Progress} {contributed contributed' : Text}
    (h : Advances now later contributed) (h' : Advances later last contributed') :
    Advances now last (contributed ++ contributed') := by
  obtain ⟨given, hwrote, hpending⟩ := h
  obtain ⟨given', hwrote', hpending'⟩ := h'
  refine ⟨given ++ given', hwrote.trans hwrote', ?_⟩
  rw [List.append_assoc, hpending', ← List.append_assoc, hpending, List.append_assoc]

/-- One round contributes its line, and keeps the batch size. -/
theorem round_advances (line rest : Text) (now : Progress) :
    Advances now (now.round filter line rest) (contribution filter line) ∧
      (now.round filter line rest).processor.batchSize = now.processor.batchSize := by
  have hpending := pending_keep filter now.processor line (now.lineNumber + 1)
  have hsize := batchSize_keep filter now.processor line (now.lineNumber + 1)
  rw [Progress.round]
  split_ifs with hfull
  · obtain ⟨hprocessor, hwrote⟩ := flushBufferTo_wrote
      (now.processor.keep filter line (now.lineNumber + 1)) now.output
    dsimp only
    rw [hprocessor]
    refine ⟨⟨_, hwrote, ?_⟩, hsize⟩
    rw [pending_empty, List.append_nil, hpending]
  · exact ⟨⟨[], .refl _, hpending⟩, hsize⟩

/-- The loop contributes the accepted lines of the input. The induction is on its rounds. -/
theorem loop_advances (now : Progress) :
    Advances now (processLoopTo filter now) (accepted filter now.input) ∧
      (processLoopTo filter now).processor.batchSize = now.processor.batchSize := by
  fun_induction processLoopTo filter now with
  | case1 now hline =>
    rw [accepted_end filter hline]
    exact ⟨⟨[], .refl _, (List.append_nil _).symm⟩, rfl⟩
  | case2 now line rest hline ih =>
    obtain ⟨hround, hsize⟩ := round_advances filter line rest now
    obtain ⟨hrest, hsize'⟩ := ih
    rw [Progress.round_input] at hrest
    rw [accepted_getline filter hline]
    exact ⟨hround.trans hrest, hsize'.trans hsize⟩

/-- A call gives the accepted lines to the stream after what was pending, and leaves an empty
buffer. -/
theorem processTo_wrote (input : Text) :
    (processTo filter input processor output).1 = ⟨[], processor.batchSize⟩ ∧
      Wrote output (processTo filter input processor output).2
        (processor.pending ++ accepted filter input) := by
  obtain ⟨⟨given, hgiven, hpending⟩, hsize⟩ := loop_advances filter ⟨input, 0, processor, output⟩
  have hflush : processTo filter input processor output =
      (processLoopTo filter ⟨input, 0, processor, output⟩).processor.flushBufferTo
        (processLoopTo filter ⟨input, 0, processor, output⟩).output := by
    rw [processTo, flushBufferTo]
    split_ifs <;> rfl
  obtain ⟨hprocessor, hwrote⟩ := flushBufferTo_wrote
    (processLoopTo filter ⟨input, 0, processor, output⟩).processor
    (processLoopTo filter ⟨input, 0, processor, output⟩).output
  rw [hflush, hprocessor, hsize, ← hpending]
  exact ⟨rfl, hgiven.trans hwrote⟩

/-- On a stream that never fails, a call writes what it writes to a text. -/
theorem processTo_good (input : Text) (hgood : output.Good) :
    (processTo filter input processor output).2.written =
      (process filter input processor output.written).2 := by
  obtain ⟨-, hwrote⟩ := processTo_wrote filter processor output input
  rw [hwrote.complete (hwrote.good hgood).1, process_eq, List.append_assoc]

end Written

/-! ### The buffer -/

section Buffer

/-- The points that the loop passes. -/
inductive Visits (filter : IPv4Address → Bool) : Progress → Progress → Prop
  | here (now : Progress) : Visits filter now now
  | next {now later : Progress} {line rest : Text} (hline : getline now.input = some (line, rest))
      (h : Visits filter (now.round filter line rest) later) : Visits filter now later

variable {filter : IPv4Address → Bool} {now later : Progress}

theorem length_keep (processor : StreamProcessor) (line : Text) (lineNumber : ℕ) :
    (keep filter line lineNumber processor).buffer.length ≤ processor.buffer.length + 1 := by
  rw [keep]
  split
  · split_ifs
    · exact List.length_append.le
    · exact Nat.le_succ _
  · exact Nat.le_succ _

/-- There is room for one more line between two rounds. -/
theorem round_room (now : Progress) (line rest : Text) :
    (now.round filter line rest).processor.buffer.length < max 1 now.processor.batchSize := by
  have hsize := batchSize_keep filter now.processor line (now.lineNumber + 1)
  rw [Progress.round]
  split_ifs with hfull
  · obtain ⟨hprocessor, -⟩ := flushBufferTo_wrote
      (now.processor.keep filter line (now.lineNumber + 1)) now.output
    dsimp only
    rw [hprocessor]
    exact Nat.lt_of_lt_of_le Nat.zero_lt_one (Nat.le_max_left ..)
  · rw [hsize] at hfull
    exact (not_le.mp hfull).trans_le (Nat.le_max_right ..)

theorem Visits.room (h : Visits filter now later)
    (hroom : now.processor.buffer.length < max 1 now.processor.batchSize) :
    later.processor.buffer.length < max 1 now.processor.batchSize ∧
      later.processor.batchSize = now.processor.batchSize := by
  induction h with
  | here now => exact ⟨hroom, rfl⟩
  | @next now later line rest hline h ih =>
    have hsize := (round_advances filter line rest now).2
    rw [hsize] at ih
    exact ih (round_room now line rest)

end Buffer

/-! ### Calls -/

/-- What a call does. The stream gets the accepted lines, as far as it takes them, the buffer is
empty afterwards, and at no time it has more entries than were reserved for it, or than one. On a
stream that never fails, it is what the call writes to a text. -/
structure Handles (batchSize : ℕ) (call : CallTo) (after : StreamProcessor × Sink Char) : Prop where
  emptied : after.1 = construct batchSize
  wrote : Wrote call.output after.2 (accepted call.filter call.input)
  good : call.output.Good → after.2.written =
    (process call.filter call.input (construct batchSize) call.output.written).2
  room : ∀ now line rest, Visits call.filter ⟨call.input, 0, construct batchSize, call.output⟩ now →
    getline now.input = some (line, rest) →
      (now.processor.keep call.filter line (now.lineNumber + 1)).buffer.length ≤ max 1 batchSize

theorem processTo_handles (batchSize : ℕ) (call : CallTo) :
    Handles batchSize call
      (processTo call.filter call.input (construct batchSize) call.output) := by
  obtain ⟨hemptied, hwrote⟩ := processTo_wrote call.filter (construct batchSize) call.output
    call.input
  refine ⟨hemptied, hwrote, processTo_good call.filter (construct batchSize) call.output call.input,
    ?_⟩
  intro now line rest hvisits hline
  have hstart : (construct batchSize).buffer.length < max 1 (construct batchSize).batchSize :=
    Nat.lt_of_lt_of_le Nat.zero_lt_one (Nat.le_max_left ..)
  exact (length_keep now.processor line _).trans (hvisits.room hstart).1

/-- Whichever writes and flushes of the output streams fail, every call of any number of calls on
one processor writes the accepted lines of its own input as far as its stream takes them. -/
theorem processAllTo_handles (batchSize : ℕ) (calls : List CallTo) :
    List.Forall₂ (Handles batchSize) calls (processAllTo (construct batchSize) calls) := by
  induction calls with
  | nil => exact .nil
  | cons call calls ih =>
    have hcall := processTo_handles batchSize call
    rw [processAllTo]
    refine .cons hcall ?_
    rw [hcall.emptied]
    exact ih

end StreamProcessor

end StudStuff.NetLog
