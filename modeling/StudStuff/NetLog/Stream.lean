import StudStuff.Lib.Segments
import StudStuff.NetLog.Filter

/-!
# Batching is invisible

`StreamProcessor` of `stream_processor.h` reads lines, keeps those whose address passes a filter in
a buffer, and writes the buffer out when it has reached the batch size and at the end of the input.
An output stream is the text written to it so far. `process_eq` compares this with writing every
kept line at once, and `processAll_eq` does so for any number of calls on one processor. What is
written and what is still to be written grow together by the contribution of each line; a flush
only moves text from one to the other.
-/

set_option autoImplicit false
set_option relaxedAutoImplicit false

namespace StudStuff.NetLog

open StudStuff.Lib

/-- `std::getline`: the characters up to the next newline, which is dropped, and the input that is
left. It fails at the end of the input. -/
def getline (input : Text) : Option (Text × Text) := nextSegment '\n' input

/-! ### The processor -/

/-- `LogEntry`. -/
structure LogEntry where
  ip : IPv4Address
  line : Text
  lineNumber : ℕ
  deriving DecidableEq, Repr

/-- `StreamProcessor`. -/
structure StreamProcessor where
  buffer : List LogEntry
  batchSize : ℕ
  deriving DecidableEq, Repr

namespace StreamProcessor

/-- `DEFAULT_BATCH_SIZE`. -/
def defaultBatchSize : ℕ := 1000

/-- The constructor. -/
def construct (batchSize : ℕ) : StreamProcessor := ⟨[], batchSize⟩

/-- `ParseIPFromLine`. -/
def parseIPFromLine (line : Text) : Option IPv4Address :=
  (line.idxOf? ' ').bind fun position ↦ IPv4Address.fromString (line.take position)

/-- `FlushBuffer`. -/
def flushBuffer (processor : StreamProcessor) (output : Text) : StreamProcessor × Text :=
  if processor.buffer = [] then (processor, output)
  else ({ processor with buffer := [] },
    output ++ processor.buffer.flatMap fun entry ↦ entry.line ++ ['\n'])

/-- Keep a line in the buffer if its address passes the filter. -/
def keep (filter : IPv4Address → Bool) (line : Text) (lineNumber : ℕ)
    (processor : StreamProcessor) : StreamProcessor :=
  match parseIPFromLine line with
  | some ip =>
    if filter ip then { processor with buffer := processor.buffer ++ [⟨ip, line, lineNumber⟩] }
    else processor
  | none => processor

/-- The loop of `Process`, which has read some lines. -/
def processLoop (filter : IPv4Address → Bool) (input : Text) (lineNumber : ℕ)
    (processor : StreamProcessor) (output : Text) : StreamProcessor × Text :=
  match _hline : getline input with
  | none => (processor, output)
  | some (line, rest) =>
    let lineNumber := lineNumber + 1
    let processor := processor.keep filter line lineNumber
    let (processor, output) :=
      if processor.batchSize ≤ processor.buffer.length then processor.flushBuffer output
      else (processor, output)
    processLoop filter rest lineNumber processor output
termination_by input.length
decreasing_by exact length_nextSegment ‹_›

/-- `Process`. -/
def process (filter : IPv4Address → Bool) (input : Text) (processor : StreamProcessor)
    (output : Text) : StreamProcessor × Text :=
  let (processor, output) := processLoop filter input 0 processor output
  if processor.buffer = [] then (processor, output) else processor.flushBuffer output

/-- One call of `Process`. -/
structure Call where
  filter : IPv4Address → Bool
  input : Text
  output : Text

/-- Calls of `Process` on one processor: the processor and the output stream after each call. -/
def processAll (processor : StreamProcessor) : List Call → List (StreamProcessor × Text)
  | [] => []
  | call :: calls =>
    let after := process call.filter call.input processor call.output
    after :: after.1.processAll calls

end StreamProcessor

/-- `ProcessStream`. -/
def processStream (input output : Text) (filter : CompositeFilter) : Text :=
  (StreamProcessor.process filter.isMatch input
    (.construct StreamProcessor.defaultBatchSize) output).2

/-! ### The reference -/

section Reference

/-- The lines of a text: its pieces between newlines, without the empty piece after the last
newline. -/
def lines (text : Text) : List Text := segments '\n' text

/-- A line contains a space, and before its first space stands an address that a filter matches. -/
def accepts (filter : IPv4Address → Bool) (line : Text) : Bool :=
  line.contains ' ' && (IPv4Address.fromString (line.takeWhile (· != ' '))).any filter

/-- The accepted lines of a text, in order, each with a newline. -/
def accepted (filter : IPv4Address → Bool) (input : Text) : Text :=
  ((lines input).filter (accepts filter)).flatMap (· ++ ['\n'])

/-- What a line contributes. -/
def contribution (filter : IPv4Address → Bool) (line : Text) : Text :=
  if accepts filter line then line ++ ['\n'] else []

variable (filter : IPv4Address → Bool) {input line rest : Text}

/-- At the end of the input nothing is left to accept. -/
theorem accepted_end (hline : getline input = none) : accepted filter input = [] := by
  cases input with
  | nil => rfl
  | cons ch text => cases hline

/-- Reading a line takes its contribution from the accepted lines. -/
theorem accepted_getline (hline : getline input = some (line, rest)) :
    accepted filter input = contribution filter line ++ accepted filter rest := by
  rw [accepted, lines, segments_next hline, List.filter_cons, contribution]
  split_ifs
  · rw [List.flatMap_cons, accepted, lines]
  · rw [List.nil_append, accepted, lines]

end Reference

/-! ### Batching -/

section Batching

namespace StreamProcessor

variable (filter : IPv4Address → Bool) (processor : StreamProcessor) (input line output : Text)

/-- What is still to be written. -/
def pending (processor : StreamProcessor) : Text :=
  processor.buffer.flatMap fun entry ↦ entry.line ++ ['\n']

theorem pending_empty (batchSize : ℕ) : pending ⟨[], batchSize⟩ = [] := rfl

theorem pending_push (entry : LogEntry) :
    pending { processor with buffer := processor.buffer ++ [entry] } =
      processor.pending ++ (entry.line ++ ['\n']) := by
  rw [pending, List.flatMap_append, List.flatMap_singleton, pending]

/-- The address that a line is parsed to, if the line contains a space. -/
theorem parseIPFromLine_eq : parseIPFromLine line =
    if ' ' ∈ line then IPv4Address.fromString (line.takeWhile (· != ' ')) else none := by
  rw [parseIPFromLine, idxOf?_eq]
  split_ifs
  · rw [Option.bind_some, take_length_takeWhile]
  · rfl

/-- The parser and the filter together decide whether a line is accepted. -/
theorem any_parseIPFromLine : (parseIPFromLine line).any filter = accepts filter line := by
  rw [parseIPFromLine_eq, accepts]
  split_ifs with hspace
  · rw [List.contains_iff_mem.mpr hspace, Bool.true_and]
  · rw [Option.any_none, Bool.eq_false_iff.mpr fun hmem ↦ hspace (List.contains_iff_mem.mp hmem),
      Bool.false_and]

/-- Keeping a line adds its contribution to what is to be written. -/
theorem pending_keep (lineNumber : ℕ) :
    (keep filter line lineNumber processor).pending =
      processor.pending ++ contribution filter line := by
  rw [contribution, ← any_parseIPFromLine, keep]
  cases parseIPFromLine line with
  | none => exact (List.append_nil _).symm
  | some ip =>
    show (if filter ip then _ else processor).pending = _ ++ if filter ip then _ else _
    split_ifs
    · exact pending_push processor ⟨ip, line, lineNumber⟩
    · exact (List.append_nil _).symm

theorem batchSize_keep (lineNumber : ℕ) :
    (keep filter line lineNumber processor).batchSize = processor.batchSize := by
  rw [keep]
  split
  · split_ifs <;> rfl
  · rfl

/-- A flush writes what is to be written and empties the buffer. -/
theorem flushBuffer_eq :
    processor.flushBuffer output = (⟨[], processor.batchSize⟩, output ++ processor.pending) := by
  rw [flushBuffer]
  split_ifs with hempty
  · rw [pending, hempty, List.flatMap_nil, List.append_nil, ← hempty]
  · rfl

/-- The written text with what is still to be written, and the batch size: all that a reader of the
output can tell of a processor. -/
def observed (state : StreamProcessor × Text) : Text × ℕ :=
  (state.2 ++ state.1.pending, state.1.batchSize)

/-- Flushing a full buffer is not observed. -/
theorem observed_flush_full :
    observed (if processor.batchSize ≤ processor.buffer.length then processor.flushBuffer output
      else (processor, output)) = observed (processor, output) := by
  split_ifs
  · rw [flushBuffer_eq, observed, pending_empty, List.append_nil, observed]
  · rfl

/-- Keeping a line is observed as its contribution. -/
theorem observed_keep (lineNumber : ℕ) :
    observed (keep filter line lineNumber processor, output) =
      (output ++ processor.pending ++ contribution filter line, processor.batchSize) := by
  rw [observed, pending_keep, batchSize_keep, List.append_assoc]

/-- The loop adds the accepted lines of the input to what is written or to be written, whatever the
batch size is. -/
theorem observed_processLoop (lineNumber : ℕ) :
    observed (processLoop filter input lineNumber processor output) =
      (output ++ processor.pending ++ accepted filter input, processor.batchSize) := by
  fun_induction processLoop filter input lineNumber processor output with
  | case1 input lineNumber processor output hline =>
    rw [accepted_end filter hline, List.append_nil, observed]
  | case2 input _ processor output line rest hline next kept processor' output' hflush ih =>
    -- The flush moves text from the buffer to the output, so the two together are those of `kept`.
    have hobserved : observed (processor', output') = observed (kept, output) :=
      (congrArg observed hflush).symm.trans (observed_flush_full kept output)
    have hkept := hobserved.trans (observed_keep filter processor line output next)
    obtain ⟨htext, hsize⟩ := Prod.mk.inj hkept
    rw [ih, htext, hsize, accepted_getline filter hline,
      List.append_assoc _ (contribution filter line)]

/-- A call of `Process` writes the accepted lines after what was to be written before, and leaves an
empty buffer. -/
theorem process_eq : process filter input processor output =
    (⟨[], processor.batchSize⟩, output ++ processor.pending ++ accepted filter input) := by
  have hloop := observed_processLoop filter processor input output 0
  cases hrun : processLoop filter input 0 processor output with
  | mk processor' output' =>
    rw [hrun] at hloop
    obtain ⟨htext, hsize⟩ := Prod.mk.inj hloop
    have hflush : process filter input processor output = processor'.flushBuffer output' := by
      rw [process, hrun]
      show (if processor'.buffer = [] then _ else _) = _
      split_ifs with hempty
      · exact (if_pos hempty).symm
      · rfl
    rw [hflush, flushBuffer_eq, ← htext, ← hsize]

/-- Batching is invisible. Whatever the batch size is, every call of any number of calls on one
processor writes the accepted lines of its own input, in order, and leaves an empty buffer. -/
theorem processAll_eq (batchSize : ℕ) (calls : List Call) :
    processAll (construct batchSize) calls = calls.map fun call ↦
      (construct batchSize, call.output ++ accepted call.filter call.input) := by
  induction calls with
  | nil => rfl
  | cons call calls ih =>
    have hcall : process call.filter call.input (construct batchSize) call.output =
        (construct batchSize, call.output ++ accepted call.filter call.input) := by
      rw [process_eq, construct, pending_empty, List.append_nil]
    rw [processAll, hcall, List.map_cons, ← ih]

end StreamProcessor

/-- `ProcessStream` writes the accepted lines of its input. -/
theorem processStream_eq (input output : Text) (filter : CompositeFilter) :
    processStream input output filter = output ++ accepted filter.isMatch input := by
  rw [processStream, StreamProcessor.process_eq, StreamProcessor.construct,
    StreamProcessor.pending_empty, List.append_nil]

end Batching

end StudStuff.NetLog
