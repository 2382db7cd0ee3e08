import Mathlib.Data.List.Basic
import Mathlib.Data.List.Induction
import Mathlib.Tactic.SplitIfs

/-!
# Comma-separated values

A `Field` is a text and whether it stands in quotes, which it has to as soon as it contains a
character with a meaning of its own. `render` is the file of some rows of fields. The writer of
Python's `csv` module with `QUOTE_MINIMAL` makes such a file (`writeRows`).

Two programs read it back. The reader of Python's `csv` module is a machine over the lines of a file
in which all newlines have become `\n` (`readRows`, `universalNewlines`), and `COPY … CSV` of
PostgreSQL is one over the whole file (`copyRows`). Both give back the texts of the fields
(`readRows_render`, `copyRows_render`), where an empty field without quotes is a null for `COPY`.
-/

set_option autoImplicit false
set_option relaxedAutoImplicit false

namespace StudStuff.Lib.Csv

/-! ### Files -/

/-- A character with a meaning outside quotes. -/
def isSpecial (ch : Char) : Bool := ch = ',' || ch = '"' || ch = '\r' || ch = '\n'

theorem isSpecial_eq_false {ch : Char} (h : isSpecial ch = false) :
    ch ≠ ',' ∧ ch ≠ '"' ∧ ch ≠ '\r' ∧ ch ≠ '\n' := by
  simpa [isSpecial, and_assoc] using h

/-- A field as it stands in a file. -/
@[ext]
structure Field where
  quoted : Bool
  text : List Char
  plain : quoted = false → ∀ ch ∈ text, isSpecial ch = false

/-- Quotes in a field are doubled. -/
def escape (text : List Char) : List Char :=
  text.flatMap fun ch ↦ if ch = '"' then ['"', '"'] else [ch]

/-- The characters of a field. -/
def Field.render (field : Field) : List Char :=
  if field.quoted then '"' :: (escape field.text ++ ['"']) else field.text

/-- The characters of a row. -/
def renderRow (eol : List Char) : List Field → List Char
  | [] => eol
  | [field] => field.render ++ eol
  | field :: next :: fields => field.render ++ ',' :: renderRow eol (next :: fields)

/-- The characters of a file. -/
def render (eol : List Char) (rows : List (List Field)) : List Char := rows.flatMap (renderRow eol)

theorem escape_cons (ch : Char) (text : List Char) :
    escape (ch :: text) = (if ch = '"' then ['"', '"'] else [ch]) ++ escape text :=
  rfl

/-! ### The writer -/

/-- A field is put in quotes if it contains a special character. -/
def quoteMinimal (text : List Char) : Field where
  quoted := text.any isSpecial
  text := text
  plain h ch hmem := Bool.eq_false_iff.mpr (List.any_eq_false.mp h ch hmem)

/-- The fields of a row. A field that is empty and alone is put in quotes, for otherwise the row
would look like an empty one. -/
def quoteRow : List (List Char) → List Field
  | [[]] => [⟨true, [], nofun⟩]
  | fields => fields.map quoteMinimal

/-- `writer.writerows`. -/
def writeRows (rows : List (List (List Char))) : List Char :=
  render ['\r', '\n'] (rows.map quoteRow)

theorem text_quoteRow (row : List (List Char)) : (quoteRow row).map (·.text) = row := by
  unfold quoteRow
  split
  · rfl
  · rw [List.map_map]
    exact List.map_id row

/-! ### The reader -/

/-- Where the reader is. -/
inductive Mode
  | startRecord
  | startField
  | inField
  | inQuotedField
  | quoteInQuotedField
  | eatCrnl
  deriving DecidableEq, Repr

/-- The state of the reader: the field and the row so far, and the rows before them. -/
@[ext]
structure Reader where
  mode : Mode
  field : List Char
  fields : List (List Char)
  rows : List (List (List Char))

namespace Reader

def start : Reader := ⟨.startRecord, [], [], []⟩

/-- Add a character to the field. -/
def addChar (r : Reader) (mode : Mode) (ch : Char) : Reader :=
  { r with mode, field := r.field ++ [ch] }

/-- The field is complete. -/
def saveField (r : Reader) (mode : Mode) : Reader :=
  { r with mode, field := [], fields := r.fields ++ [r.field] }

/-- The row is complete. -/
def saveRow (r : Reader) : Reader :=
  { r with mode := .startRecord, fields := [], rows := r.rows ++ [r.fields] }

/-- A character at the start of a field. -/
def beginField (r : Reader) (ch : Char) : Reader :=
  if ch = '\n' ∨ ch = '\r' then r.saveField .eatCrnl
  else if ch = '"' then { r with mode := .inQuotedField }
  else if ch = ',' then r.saveField .startField
  else r.addChar .inField ch

/-- One character. A newline must not be followed by anything else in its line. -/
def process (r : Reader) (ch : Char) : Option Reader :=
  match r.mode with
  | .startRecord =>
    if ch = '\n' ∨ ch = '\r' then some { r with mode := .eatCrnl } else some (r.beginField ch)
  | .startField => some (r.beginField ch)
  | .inField =>
    if ch = '\n' ∨ ch = '\r' then some (r.saveField .eatCrnl)
    else if ch = ',' then some (r.saveField .startField)
    else some (r.addChar .inField ch)
  | .inQuotedField =>
    if ch = '"' then some { r with mode := .quoteInQuotedField }
    else some (r.addChar .inQuotedField ch)
  | .quoteInQuotedField =>
    if ch = '"' then some (r.addChar .inQuotedField ch)
    else if ch = ',' then some (r.saveField .startField)
    else if ch = '\n' ∨ ch = '\r' then some (r.saveField .eatCrnl)
    else some (r.addChar .inField ch)
  | .eatCrnl => if ch = '\n' ∨ ch = '\r' then some r else none

/-- The end of a line. A field in quotes goes on in the next one. -/
def endLine (r : Reader) : Reader :=
  match r.mode with
  | .startRecord | .eatCrnl => r.saveRow
  | .startField | .inField | .quoteInQuotedField => (r.saveField .startRecord).saveRow
  | .inQuotedField => r

/-- The characters of a file. -/
def run : Reader → List Char → Option Reader
  | r, [] => some r
  | r, ch :: rest =>
    match r.process ch with
    | none => none
    | some r' => if ch = '\n' then r'.endLine.run rest else r'.run rest

/-- The end of the file. -/
def finish (r : Reader) : List (List (List Char)) :=
  if r.mode = .inQuotedField ∨ r.field ≠ [] then (r.saveField .startRecord).saveRow.rows
  else r.rows

end Reader

/-- `list(csv.reader(file))`. -/
def readRows (text : List Char) : Option (List (List (List Char))) :=
  (Reader.start.run text).map fun r ↦
    if text.getLast?.all (· = '\n') then r.finish else r.endLine.finish

/-- What reading a file in text mode makes of its newlines. -/
def universalNewlines : List Char → List Char
  | [] => []
  | '\r' :: '\n' :: rest => '\n' :: universalNewlines rest
  | '\r' :: rest => '\n' :: universalNewlines rest
  | ch :: rest => ch :: universalNewlines rest

/-! ### `COPY` -/

/-- How the lines of a file end. -/
inductive Eol
  | nl
  | cr
  | crnl
  deriving DecidableEq, Repr

/-- Where `COPY` is: outside quotes, inside, after a quote inside quotes, or after a carriage return
that may be the first half of a newline. -/
inductive CopyMode
  | plain
  | quoted
  | quoteSeen
  | crSeen
  deriving DecidableEq, Repr

/-- The state of `COPY`: how the lines end that it has seen, whether there was a quote in the field,
the field and the row so far, and the rows before them. -/
@[ext]
structure Copier where
  mode : CopyMode
  eol : Option Eol
  sawQuote : Bool
  field : List Char
  fields : List (Option (List Char))
  rows : List (List (Option (List Char)))

namespace Copier

def start : Copier := ⟨.plain, none, false, [], [], []⟩

/-- An empty field without quotes is null. -/
def value (c : Copier) : Option (List Char) :=
  if c.sawQuote = false ∧ c.field = [] then none else some c.field

/-- The field is complete. -/
def endField (c : Copier) : Copier :=
  { c with mode := .plain, sawQuote := false, field := [], fields := c.fields ++ [c.value] }

/-- The row is complete. -/
def endRow (c : Copier) (eol : Eol) : Copier :=
  { c with
    mode := .plain
    eol := some eol
    sawQuote := false
    field := []
    fields := []
    rows := c.rows ++ [c.fields ++ [c.value]] }

/-- A character outside quotes. All lines end alike. -/
def processPlain (c : Copier) (ch : Char) : Option Copier :=
  if ch = ',' then some c.endField
  else if ch = '"' then some { c with mode := .quoted, sawQuote := true }
  else if ch = '\n' then
    if c.eol = none ∨ c.eol = some .nl then some (c.endRow .nl) else none
  else if ch = '\r' then
    if c.eol = some .nl then none
    else if c.eol = some .cr then some (c.endRow .cr)
    else some { c with mode := .crSeen }
  else some { c with mode := .plain, field := c.field ++ [ch] }

/-- One character. -/
def process (c : Copier) (ch : Char) : Option Copier :=
  match c.mode with
  | .plain => c.processPlain ch
  | .quoted =>
    if ch = '"' then some { c with mode := .quoteSeen }
    else some { c with field := c.field ++ [ch] }
  | .quoteSeen =>
    if ch = '"' then some { c with mode := .quoted, field := c.field ++ [ch] }
    else c.processPlain ch
  | .crSeen =>
    if ch = '\n' then some (c.endRow .crnl)
    else if c.eol = some .crnl then none
    else (c.endRow .cr).processPlain ch

/-- The characters of a file. -/
def run : Copier → List Char → Option Copier
  | c, [] => some c
  | c, ch :: rest =>
    match c.process ch with
    | none => none
    | some c' => c'.run rest

/-- The end of the file, which must not be inside quotes. -/
def finish (c : Copier) : Option (List (List (Option (List Char)))) :=
  match c.mode with
  | .quoted => none
  | .crSeen => some (c.endRow .cr).rows
  | .plain | .quoteSeen =>
    if c.fields = [] ∧ c.value = none then some c.rows else some (c.endRow .nl).rows

end Copier

/-- The rows that `COPY … CSV` reads. -/
def copyRows (text : List Char) : Option (List (List (Option (List Char)))) :=
  (Copier.start.run text).bind Copier.finish

/-! ### What the reader gets -/

namespace Reader

variable {r r' : Reader} {ch : Char} {text : List Char}

theorem run_step (hprocess : r.process ch = some r') (hch : ch ≠ '\n') (rest : List Char) :
    r.run (ch :: rest) = r'.run rest := by
  rw [run, hprocess]
  exact if_neg hch

theorem run_newline (hprocess : r.process '\n' = some r') (rest : List Char) :
    r.run ('\n' :: rest) = r'.endLine.run rest := by
  rw [run, hprocess]
  exact if_pos rfl

/-- The text of a field in quotes, which may go over several lines. -/
theorem run_escape (hmode : r.mode = .inQuotedField) (text rest : List Char) :
    r.run (escape text ++ rest) = { r with field := r.field ++ text }.run rest := by
  induction text generalizing r with
  | nil => rw [List.append_nil]; rfl
  | cons ch text ih =>
    have hadded : (r.addChar .inQuotedField ch).run (escape text ++ rest) =
        { r with field := r.field ++ ch :: text }.run rest := by
      rw [ih rfl, addChar, List.append_assoc, List.singleton_append, ← hmode]
    rw [escape_cons, List.append_assoc, ← hadded]
    split_ifs with hquote
    · subst hquote
      have hfirst : r.process '"' = some { r with mode := .quoteInQuotedField } := by
        rw [process, hmode]
        rfl
      have hsecond : ({ r with mode := .quoteInQuotedField } : Reader).process '"' =
          some (r.addChar .inQuotedField '"') := rfl
      exact (run_step hfirst (by decide) _).trans (run_step hsecond (by decide) _)
    · have hprocess : r.process ch = some (r.addChar .inQuotedField ch) := by
        simp only [process, hmode]
        exact if_neg hquote
      by_cases hnewline : ch = '\n'
      · subst hnewline
        exact run_newline hprocess _
      · exact run_step hprocess hnewline _

/-- The text of a field without quotes. -/
theorem run_plain (hmode : r.mode = .inField) (hplain : ∀ ch ∈ text, isSpecial ch = false)
    (rest : List Char) :
    r.run (text ++ rest) = { r with field := r.field ++ text }.run rest := by
  induction text generalizing r with
  | nil => rw [List.append_nil]; rfl
  | cons ch text ih =>
    obtain ⟨hch, htext⟩ := List.forall_mem_cons.mp hplain
    obtain ⟨hcomma, hquote, hreturn, hnewline⟩ := isSpecial_eq_false hch
    have hprocess : r.process ch = some (r.addChar .inField ch) := by
      simp only [process, hmode]
      rw [if_neg (not_or.mpr ⟨hnewline, hreturn⟩), if_neg hcomma]
    rw [List.cons_append, run_step hprocess hnewline, ih rfl htext, addChar, List.append_assoc,
      List.singleton_append, ← hmode]

/-- Where the reader is after the characters of a field. -/
structure After (r r' : Reader) (field : Field) : Prop where
  mode : r'.mode = .inField ∨ r'.mode = .quoteInQuotedField ∨
    r' = r ∧ field.quoted = false ∧ field.text = []
  field : r'.field = field.text
  fields : r'.fields = r.fields
  rows : r'.rows = r.rows

/-- The characters of a field. -/
theorem run_field (hmode : r.mode = .startRecord ∨ r.mode = .startField) (hempty : r.field = [])
    (field : Field) (rest : List Char) :
    ∃ r', After r r' field ∧ r.run (field.render ++ rest) = r'.run rest := by
  have hbegin {ch : Char} (hnewline : ch ≠ '\n') (hreturn : ch ≠ '\r') :
      r.process ch = some (r.beginField ch) := by
    rcases hmode with hmode | hmode
    · simp only [process, hmode]
      exact if_neg (not_or.mpr ⟨hnewline, hreturn⟩)
    · simp only [process, hmode]
  rw [Field.render]
  split_ifs with hquoted
  · have hopen : r.process '"' = some { r with mode := .inQuotedField } :=
      hbegin (by decide) (by decide)
    have hclose : ({ r with mode := .inQuotedField, field := field.text } : Reader).process '"' =
        some { r with mode := .quoteInQuotedField, field := field.text } := rfl
    refine ⟨⟨.quoteInQuotedField, field.text, r.fields, r.rows⟩,
      ⟨Or.inr (Or.inl rfl), rfl, rfl, rfl⟩, ?_⟩
    rw [List.cons_append, run_step hopen (by decide), List.append_assoc, run_escape rfl, hempty]
    exact run_step hclose (by decide) rest
  · have hplain := field.plain (Bool.eq_false_iff.mpr hquoted)
    cases htext : field.text with
    | nil =>
      have hunquoted := Bool.eq_false_iff.mpr hquoted
      exact ⟨r, ⟨Or.inr (Or.inr ⟨rfl, hunquoted, htext⟩), hempty.trans htext.symm, rfl, rfl⟩, rfl⟩
    | cons ch text =>
      rw [htext] at hplain
      obtain ⟨hch, hrest⟩ := List.forall_mem_cons.mp hplain
      obtain ⟨hcomma, hquote, hreturn, hnewline⟩ := isSpecial_eq_false hch
      have hfirst : r.process ch = some (r.addChar .inField ch) := by
        rw [hbegin hnewline hreturn, beginField, if_neg (not_or.mpr ⟨hnewline, hreturn⟩),
          if_neg hquote, if_neg hcomma]
      refine ⟨⟨.inField, ch :: text, r.fields, r.rows⟩, ⟨Or.inl rfl, htext.symm, rfl, rfl⟩, ?_⟩
      rw [List.cons_append, run_step hfirst hnewline, run_plain rfl hrest, addChar, hempty]
      rfl

/-- A field before a comma. -/
theorem run_comma (hmode : r.mode = .startRecord ∨ r.mode = .startField) (hempty : r.field = [])
    (field : Field) (rest : List Char) : r.run (field.render ++ ',' :: rest) =
      (Reader.mk .startField [] (r.fields ++ [field.text]) r.rows).run rest := by
  obtain ⟨r', h, hrun⟩ := run_field hmode hempty field (',' :: rest)
  have hsave : r'.saveField .startField = ⟨.startField, [], r.fields ++ [field.text], r.rows⟩ := by
    rw [saveField, h.field, h.fields, h.rows]
  have hprocess : r'.process ',' = some (r'.saveField .startField) := by
    rcases h.mode with hin | hquote | ⟨rfl, -, -⟩
    · rw [process, hin]
      rfl
    · rw [process, hquote]
      rfl
    · rcases hmode with hmode | hmode
      · rw [process, hmode]
        rfl
      · rw [process, hmode]
        rfl
  rw [hrun, run_step hprocess (by decide), hsave]

/-- A field before a newline. An empty line is an empty row. -/
theorem run_last (hmode : r.mode = .startRecord ∨ r.mode = .startField) (hempty : r.field = [])
    {field : Field} (hline : r.mode = .startRecord → field.quoted = false → field.text ≠ [])
    (rest : List Char) : r.run (field.render ++ '\n' :: rest) =
      (Reader.mk .startRecord [] [] (r.rows ++ [r.fields ++ [field.text]])).run rest := by
  obtain ⟨r', h, hrun⟩ := run_field hmode hempty field ('\n' :: rest)
  have hsave : (r'.saveField .eatCrnl).endLine =
      ⟨.startRecord, [], [], r.rows ++ [r.fields ++ [field.text]]⟩ := by
    rw [saveField, endLine, saveRow, h.field, h.fields, h.rows]
  have hprocess : r'.process '\n' = some (r'.saveField .eatCrnl) := by
    rcases h.mode with hin | hquote | ⟨rfl, hquoted, htext⟩
    · rw [process, hin]
      rfl
    · rw [process, hquote]
      rfl
    · have hfield := hmode.resolve_left fun hrecord ↦ hline hrecord hquoted htext
      rw [process, hfield]
      rfl
  rw [hrun, run_newline hprocess, hsave]

/-- A row is read back, if it does not look like an empty one. -/
theorem run_row (hmode : r.mode = .startRecord ∨ r.mode = .startField) (hempty : r.field = [])
    {row : List Field} (hne : row ≠ [])
    (hline : r.mode = .startRecord → ∀ field, row = [field] → field.quoted = false →
      field.text ≠ []) (rest : List Char) : r.run (renderRow ['\n'] row ++ rest) =
        (Reader.mk .startRecord [] [] (r.rows ++ [r.fields ++ row.map (·.text)])).run rest := by
  induction row generalizing r with
  | nil => exact absurd rfl hne
  | cons field row ih =>
    cases row with
    | nil =>
      rw [renderRow, List.append_assoc]
      exact run_last hmode hempty (fun hrecord ↦ hline hrecord field rfl) rest
    | cons next row =>
      have hnext := ih (r := ⟨.startField, [], r.fields ++ [field.text], r.rows⟩) (Or.inr rfl) rfl
        (List.cons_ne_nil _ _) nofun
      rw [renderRow, List.append_assoc, List.cons_append, run_comma hmode hempty, hnext,
        List.append_assoc]
      rfl

end Reader

theorem exists_renderRow (eol : List Char) (row : List Field) :
    ∃ front, renderRow eol row = front ++ eol := by
  induction row with
  | nil => exact ⟨[], rfl⟩
  | cons field row ih =>
    cases row with
    | nil => exact ⟨field.render, rfl⟩
    | cons next row =>
      obtain ⟨front, hfront⟩ := ih
      exact ⟨field.render ++ ',' :: front, by rw [renderRow, hfront, List.append_assoc]; rfl⟩

/-- Every line of a file is ended. -/
theorem getLast?_render (ch : Char) (rows : List (List Field)) :
    (render [ch] rows).getLast?.all (· = ch) = true := by
  induction rows using List.reverseRecOn with
  | nil => rfl
  | append_singleton rows row _ =>
    obtain ⟨front, hfront⟩ := exists_renderRow [ch] row
    rw [render, List.flatMap_append, List.flatMap_singleton, hfront, ← List.append_assoc,
      List.getLast?_concat]
    simp

/-- A row that does not look like an empty one. -/
def IsRow (row : List Field) : Prop :=
  row ≠ [] ∧ ∀ field, row = [field] → field.quoted = false → field.text ≠ []

/-- The reader gets the texts of a file with rows that are not empty. -/
theorem readRows_render {rows : List (List Field)} (hrows : ∀ row ∈ rows, IsRow row) :
    readRows (render ['\n'] rows) = some (rows.map fun row ↦ row.map (·.text)) := by
  have hrun (before : List (List (List Char))) :
      (Reader.mk .startRecord [] [] before).run (render ['\n'] rows) =
        some ⟨.startRecord, [], [], before ++ rows.map fun row ↦ row.map (·.text)⟩ := by
    induction rows generalizing before with
    | nil => rw [List.map_nil, List.append_nil]; rfl
    | cons row rows ih =>
      obtain ⟨⟨hne, hline⟩, hrest⟩ := List.forall_mem_cons.mp hrows
      rw [render, List.flatMap_cons, Reader.run_row (Or.inl rfl) rfl hne fun _ ↦ hline]
      refine (ih hrest _).trans ?_
      rw [List.append_assoc]
      rfl
  rw [readRows, Reader.start, hrun []]
  simp only [Option.map_some, getLast?_render, if_true, List.nil_append]
  rfl

/-! ### What `COPY` gets -/

/-- What `COPY` takes a field for. -/
def Field.value (field : Field) : Option (List Char) :=
  if field.quoted = false ∧ field.text = [] then none else some field.text

namespace Copier

variable {c c' : Copier} {ch : Char} {text : List Char}

theorem run_step (hprocess : c.process ch = some c') (rest : List Char) :
    c.run (ch :: rest) = c'.run rest := by
  rw [run, hprocess]

/-- The text of a field in quotes. -/
theorem run_escape (hmode : c.mode = .quoted) (text rest : List Char) :
    c.run (escape text ++ rest) = { c with field := c.field ++ text }.run rest := by
  induction text generalizing c with
  | nil => rw [List.append_nil]; rfl
  | cons ch text ih =>
    have hadded : ({ c with field := c.field ++ [ch] } : Copier).run (escape text ++ rest) =
        { c with field := c.field ++ ch :: text }.run rest := by
      rw [ih (c := { c with field := c.field ++ [ch] }) hmode, List.append_assoc,
        List.singleton_append]
    rw [escape_cons, List.append_assoc, ← hadded]
    split_ifs with hquote
    · subst hquote
      have hfirst : c.process '"' = some { c with mode := .quoteSeen } := by
        rw [process, hmode]
        rfl
      have hsecond : ({ c with mode := .quoteSeen } : Copier).process '"' =
          some { c with field := c.field ++ ['"'] } := by
        rw [hmode]
        rfl
      exact (run_step hfirst _).trans (run_step hsecond _)
    · have hprocess : c.process ch = some { c with field := c.field ++ [ch] } := by
        simp only [process, hmode]
        exact if_neg hquote
      exact run_step hprocess _

/-- The text of a field without quotes. -/
theorem run_plain (hmode : c.mode = .plain) (hplain : ∀ ch ∈ text, isSpecial ch = false)
    (rest : List Char) :
    c.run (text ++ rest) = { c with field := c.field ++ text }.run rest := by
  induction text generalizing c with
  | nil => rw [List.append_nil]; rfl
  | cons ch text ih =>
    obtain ⟨hch, htext⟩ := List.forall_mem_cons.mp hplain
    obtain ⟨hcomma, hquote, hreturn, hnewline⟩ := isSpecial_eq_false hch
    have hprocess : c.process ch = some { c with field := c.field ++ [ch] } := by
      simp only [process, hmode, processPlain]
      rw [if_neg hcomma, if_neg hquote, if_neg hnewline, if_neg hreturn]
    rw [List.cons_append, run_step hprocess,
      ih (c := { c with field := c.field ++ [ch] }) hmode htext, List.append_assoc,
      List.singleton_append]

/-- `COPY` is at the start of a field. -/
structure AtField (c : Copier) : Prop where
  mode : c.mode = .plain
  sawQuote : c.sawQuote = false
  field : c.field = []

/-- The characters of a field. -/
theorem run_field (h : c.AtField) (field : Field) (rest : List Char) :
    ∃ mode, (mode = .plain ∨ mode = .quoteSeen) ∧ c.run (field.render ++ rest) =
      (Copier.mk mode c.eol field.quoted field.text c.fields c.rows).run rest := by
  rw [Field.render]
  split_ifs with hquoted
  · have hopen : c.process '"' = some { c with mode := .quoted, sawQuote := true } := by
      rw [process, h.mode]
      rfl
    have hclose : (Copier.mk .quoted c.eol true field.text c.fields c.rows).process '"' =
        some ⟨.quoteSeen, c.eol, true, field.text, c.fields, c.rows⟩ := rfl
    refine ⟨.quoteSeen, Or.inr rfl, ?_⟩
    rw [List.cons_append, run_step hopen, List.append_assoc, run_escape rfl, h.field, hquoted]
    exact run_step hclose rest
  · have hunquoted := Bool.eq_false_iff.mpr hquoted
    refine ⟨.plain, Or.inl rfl, ?_⟩
    rw [run_plain h.mode (field.plain hunquoted), h.field, h.mode, h.sawQuote, hunquoted]
    rfl

/-- A field before a comma. -/
theorem run_comma (h : c.AtField) (field : Field) (rest : List Char) :
    c.run (field.render ++ ',' :: rest) =
      (Copier.mk .plain c.eol false [] (c.fields ++ [field.value]) c.rows).run rest := by
  obtain ⟨mode, hmode, hrun⟩ := run_field h field (',' :: rest)
  rw [hrun]
  rcases hmode with rfl | rfl
  · exact run_step rfl rest
  · exact run_step rfl rest

/-- A field before a newline. -/
theorem run_last (h : c.AtField) (heol : c.eol = none ∨ c.eol = some .crnl) (field : Field)
    (rest : List Char) : c.run (field.render ++ '\r' :: '\n' :: rest) =
      (Copier.mk .plain (some .crnl) false [] [] (c.rows ++ [c.fields ++ [field.value]])).run
        rest := by
  obtain ⟨mode, hmode, hrun⟩ := run_field h field ('\r' :: '\n' :: rest)
  have hreturn : (Copier.mk mode c.eol field.quoted field.text c.fields c.rows).process '\r' =
      some ⟨.crSeen, c.eol, field.quoted, field.text, c.fields, c.rows⟩ := by
    rcases hmode with rfl | rfl <;> rcases heol with heol | heol <;> rw [heol] <;> rfl
  rw [hrun, run_step hreturn]
  exact run_step rfl rest

theorem run_row (h : c.AtField) (heol : c.eol = none ∨ c.eol = some .crnl) {row : List Field}
    (hne : row ≠ []) (rest : List Char) : c.run (renderRow ['\r', '\n'] row ++ rest) =
      (Copier.mk .plain (some .crnl) false [] [] (c.rows ++ [c.fields ++ row.map Field.value])).run
        rest := by
  induction row generalizing c with
  | nil => exact absurd rfl hne
  | cons field row ih =>
    cases row with
    | nil =>
      rw [renderRow, List.append_assoc]
      exact run_last h heol field rest
    | cons next row =>
      have hnext := ih (c := ⟨.plain, c.eol, false, [], c.fields ++ [field.value], c.rows⟩)
        ⟨rfl, rfl, rfl⟩ heol (List.cons_ne_nil _ _)
      rw [renderRow, List.append_assoc, List.cons_append, run_comma h, hnext, List.append_assoc]
      rfl

end Copier

/-- `COPY` gets the values of the fields of a file whose lines end as the writer ends them. -/
theorem copyRows_render {rows : List (List Field)} (hrows : ∀ row ∈ rows, row ≠ []) :
    copyRows (render ['\r', '\n'] rows) = some (rows.map fun row ↦ row.map Field.value) := by
  have hrun (c : Copier) (h : c.AtField) (heol : c.eol = none ∨ c.eol = some .crnl)
      (hfields : c.fields = []) : ∃ eol, c.run (render ['\r', '\n'] rows) =
        some ⟨.plain, eol, false, [], [], c.rows ++ rows.map fun row ↦ row.map Field.value⟩ := by
    induction rows generalizing c with
    | nil =>
      refine ⟨c.eol, congrArg some (Copier.ext h.mode rfl h.sawQuote h.field hfields ?_)⟩
      rw [List.map_nil, List.append_nil]
    | cons row rows ih =>
      obtain ⟨hne, hrest⟩ := List.forall_mem_cons.mp hrows
      rw [render, List.flatMap_cons, Copier.run_row h heol hne, hfields]
      obtain ⟨eol, heol'⟩ := ih hrest ⟨.plain, some .crnl, false, [], [],
        c.rows ++ [[] ++ row.map Field.value]⟩ ⟨rfl, rfl, rfl⟩ (Or.inr rfl) rfl
      refine ⟨eol, heol'.trans ?_⟩
      rw [List.append_assoc]
      rfl
  obtain ⟨eol, heol⟩ := hrun .start ⟨rfl, rfl, rfl⟩ (Or.inl rfl) rfl
  rw [copyRows, heol]
  rfl

/-! ### Characters -/

theorem mem_of_mem_render {field : Field} {ch : Char} (h : ch ∈ field.render) :
    ch = '"' ∨ ch ∈ field.text := by
  have hescape (hmem : ch ∈ escape field.text) : ch ∈ field.text := by
    obtain ⟨other, hother, hmem⟩ := List.mem_flatMap.mp hmem
    split_ifs at hmem with hquote
    · have hself : ch = '"' := by simpa using hmem
      rwa [hself, ← hquote]
    · rwa [List.mem_singleton.mp hmem]
  unfold Field.render at h
  split_ifs at h
  · rcases List.mem_cons.mp h with hquote | hmem
    · exact Or.inl hquote
    · rcases List.mem_append.mp hmem with htext | hquote
      · exact Or.inr (hescape htext)
      · exact Or.inl (List.mem_singleton.mp hquote)
  · exact Or.inr h

theorem mem_of_mem_renderRow {eol : List Char} {row : List Field} {ch : Char}
    (h : ch ∈ renderRow eol row) : ch ∈ eol ∨ ch = ',' ∨ ∃ field ∈ row, ch ∈ field.render := by
  induction row with
  | nil => exact Or.inl h
  | cons field row ih =>
    cases row with
    | nil =>
      rcases List.mem_append.mp h with hfield | heol
      · exact Or.inr (Or.inr ⟨field, List.mem_cons_self, hfield⟩)
      · exact Or.inl heol
    | cons next row =>
      rcases List.mem_append.mp h with hfield | hrest
      · exact Or.inr (Or.inr ⟨field, List.mem_cons_self, hfield⟩)
      · rcases List.mem_cons.mp hrest with hcomma | hrest
        · exact Or.inr (Or.inl hcomma)
        · refine (ih hrest).imp_right (Or.imp_right ?_)
          rintro ⟨other, hother, hmem⟩
          exact ⟨other, List.mem_cons_of_mem _ hother, hmem⟩

/-- What the writer writes besides the texts has a meaning of its own. -/
theorem mem_of_mem_writeRows {rows : List (List (List Char))} {ch : Char}
    (h : ch ∈ writeRows rows) :
    isSpecial ch = true ∨ ∃ row ∈ rows, ∃ text ∈ row, ch ∈ text := by
  obtain ⟨fields, hfields, hmem⟩ := List.mem_flatMap.mp h
  obtain ⟨row, hrow, rfl⟩ := List.mem_map.mp hfields
  rcases mem_of_mem_renderRow hmem with heol | rfl | ⟨field, hfield, hmem⟩
  · have heol : ch = '\r' ∨ ch = '\n' := by simpa using heol
    exact Or.inl (by rcases heol with rfl | rfl <;> rfl)
  · exact Or.inl rfl
  · rcases mem_of_mem_render hmem with rfl | htext
    · exact Or.inl rfl
    · have hrowText : field.text ∈ row := by
        rw [← text_quoteRow row]
        exact List.mem_map_of_mem hfield
      exact Or.inr ⟨row, hrow, field.text, hrowText, htext⟩

/-! ### Newlines -/

section Newlines

variable {text rest : List Char}

theorem universalNewlines_cons {ch : Char} (h : ch ≠ '\r') (text : List Char) :
    universalNewlines (ch :: text) = ch :: universalNewlines text := by
  rw [universalNewlines]
  · exact fun _ hch ↦ absurd hch h
  · exact h

/-- A text without carriage returns stays as it is. -/
theorem universalNewlines_of_not_mem (h : '\r' ∉ text) : universalNewlines text = text := by
  induction text with
  | nil => rfl
  | cons ch text ih =>
    rw [List.mem_cons, not_or] at h
    rw [universalNewlines_cons (Ne.symm h.1), ih h.2]

/-- No newline is cut in two. -/
theorem universalNewlines_append (h : rest.head? ≠ some '\n') :
    universalNewlines (text ++ rest) = universalNewlines text ++ universalNewlines rest := by
  induction text using universalNewlines.induct with
  | case1 => rfl
  | case2 text ih =>
    rw [List.cons_append, List.cons_append, universalNewlines, universalNewlines, ih,
      List.cons_append]
  | case3 text hne ih =>
    rw [List.cons_append, universalNewlines, universalNewlines, ih, List.cons_append]
    · exact hne
    · rintro rest' heq
      cases text with
      | nil => exact h (congrArg List.head? heq)
      | cons ch text => exact hne text ((List.cons.inj heq).1 ▸ rfl)
  | case4 ch text hne hch ih =>
    rw [List.cons_append, universalNewlines_cons hch, universalNewlines_cons hch, ih,
      List.cons_append]

theorem universalNewlines_escape (text : List Char) :
    universalNewlines (escape text) = escape (universalNewlines text) := by
  induction text using universalNewlines.induct with
  | case1 => rfl
  | case2 text ih =>
    rw [universalNewlines, escape_cons, escape_cons, escape_cons, ← ih]
    rfl
  | case3 text hne ih =>
    rw [universalNewlines, escape_cons, escape_cons, ← ih, if_neg (by decide), if_neg (by decide),
      List.singleton_append, List.singleton_append, universalNewlines]
    · intro rest heq
      cases text with
      | nil => cases heq
      | cons ch text =>
        rw [escape_cons] at heq
        split_ifs at heq with hquote
        · cases heq
        · exact hne text ((List.cons.inj heq).1 ▸ rfl)
    · exact hne
  | case4 ch text hne hch ih =>
    rw [universalNewlines_cons hch, escape_cons, escape_cons, ← ih]
    split_ifs with hquote
    · rfl
    · exact universalNewlines_cons hch _

/-- A field whose newlines have become `\n`. -/
def Field.normalize (field : Field) : Field where
  quoted := field.quoted
  text := universalNewlines field.text
  plain h ch hmem := by
    have hreturn : '\r' ∉ field.text := fun hmem ↦ by
      have hspecial := field.plain h _ hmem
      cases hspecial
    rw [universalNewlines_of_not_mem hreturn] at hmem
    exact field.plain h ch hmem

theorem universalNewlines_field (field : Field) (h : rest.head? ≠ some '\n') :
    universalNewlines (field.render ++ rest) =
      field.normalize.render ++ universalNewlines rest := by
  rw [universalNewlines_append h, Field.render, Field.render]
  have hsame : field.normalize.quoted = field.quoted := rfl
  rw [hsame]
  split_ifs with hquoted
  · rw [universalNewlines_cons (by decide), universalNewlines_append (by decide),
      universalNewlines_escape]
    rfl
  · rfl

theorem universalNewlines_row (row : List Field) (rest : List Char) :
    universalNewlines (renderRow ['\r', '\n'] row ++ rest) =
      renderRow ['\n'] (row.map Field.normalize) ++ universalNewlines rest := by
  induction row with
  | nil => rfl
  | cons field row ih =>
    cases row with
    | nil =>
      rw [renderRow, List.append_assoc, universalNewlines_field field (by simp), List.map_singleton,
        renderRow, List.append_assoc]
      rfl
    | cons next row =>
      rw [renderRow, List.append_assoc, List.cons_append, universalNewlines_field field (by simp),
        universalNewlines_cons (by decide), ih]
      simp only [List.map_cons, renderRow, List.append_assoc, List.cons_append]

theorem universalNewlines_render (rows : List (List Field)) :
    universalNewlines (render ['\r', '\n'] rows) =
      render ['\n'] (rows.map (List.map Field.normalize)) := by
  induction rows with
  | nil => rfl
  | cons row rows ih =>
    rw [render, List.flatMap_cons, universalNewlines_row]
    exact congrArg (renderRow _ _ ++ ·) ih

end Newlines

/-! ### Round trips -/

section RoundTrips

variable {rows : List (List (List Char))}

/-- An empty text is null. -/
def nullEmpty (text : List Char) : Option (List Char) := if text = [] then none else some text

theorem value_quoteMinimal (text : List Char) : (quoteMinimal text).value = nullEmpty text := by
  rw [Field.value, nullEmpty]
  have htext : (quoteMinimal text).text = text := rfl
  rw [htext]
  by_cases hempty : text = []
  · rw [if_pos hempty, if_pos ⟨hempty ▸ rfl, hempty⟩]
  · rw [if_neg hempty, if_neg fun h ↦ hempty h.2]

theorem universalNewlines_ne_nil {text : List Char} (h : text ≠ []) :
    universalNewlines text ≠ [] := by
  cases text using universalNewlines.induct with
  | case1 => exact absurd rfl h
  | case2 text => simp [universalNewlines]
  | case3 text hne => simp [universalNewlines]
  | case4 ch text hne hch =>
    rw [universalNewlines_cons hch]
    exact List.cons_ne_nil _ _

/-- No row that is written looks like an empty one. -/
theorem isRow_quoteRow {row : List (List Char)} (hne : row ≠ []) : IsRow (quoteRow row) := by
  unfold quoteRow
  split
  next => exact ⟨List.cons_ne_nil _ _, fun field hfield hquoted ↦ by cases hfield; cases hquoted⟩
  next fields hfields =>
    refine ⟨mt List.map_eq_nil_iff.mp hne, fun field hfield _ htext ↦ ?_⟩
    obtain ⟨text, rfl, rfl⟩ := List.map_eq_singleton_iff.mp hfield
    exact hfields (congrArg (fun text ↦ [text]) htext)

theorem IsRow.normalize {row : List Field} (h : IsRow row) : IsRow (row.map Field.normalize) := by
  refine ⟨mt List.map_eq_nil_iff.mp h.1, fun field hfield hquoted ↦ ?_⟩
  obtain ⟨original, rfl, rfl⟩ := List.map_eq_singleton_iff.mp hfield
  exact universalNewlines_ne_nil (h.2 original rfl hquoted)

/-- The reader gets what the writer wrote, with all newlines turned into `\n`. -/
theorem readRows_writeRows (hrows : ∀ row ∈ rows, row ≠ []) :
    readRows (universalNewlines (writeRows rows)) =
      some (rows.map fun row ↦ row.map universalNewlines) := by
  rw [writeRows, universalNewlines_render, readRows_render, List.map_map, List.map_map]
  · refine congrArg some (List.map_congr_left fun row _ ↦ ?_)
    have htext := congrArg (List.map universalNewlines) (text_quoteRow row)
    rw [List.map_map] at htext
    rw [← htext, Function.comp, Function.comp, List.map_map]
    rfl
  · intro fields hfields
    obtain ⟨row, hrow, rfl⟩ := List.mem_map.mp hfields
    obtain ⟨texts, htexts, rfl⟩ := List.mem_map.mp hrow
    exact (isRow_quoteRow (hrows texts htexts)).normalize

/-- `COPY` gets what the writer wrote, with nulls for the empty texts, if the rows have at least two
fields. -/
theorem copyRows_writeRows (hrows : ∀ row ∈ rows, 2 ≤ row.length) :
    copyRows (writeRows rows) = some (rows.map fun row ↦ row.map nullEmpty) := by
  have hquote {row : List (List Char)} (hlength : 2 ≤ row.length) :
      quoteRow row = row.map quoteMinimal := by
    unfold quoteRow
    split
    next => exact absurd hlength (by decide)
    next => rfl
  rw [writeRows, copyRows_render, List.map_map]
  · refine congrArg some (List.map_congr_left fun row hrow ↦ ?_)
    rw [Function.comp, hquote (hrows row hrow), List.map_map]
    exact List.map_congr_left fun text _ ↦ value_quoteMinimal text
  · intro fields hfields
    obtain ⟨row, hrow, rfl⟩ := List.mem_map.mp hfields
    refine (isRow_quoteRow ?_).1
    rintro rfl
    cases hrows [] hrow

end RoundTrips

end StudStuff.Lib.Csv
