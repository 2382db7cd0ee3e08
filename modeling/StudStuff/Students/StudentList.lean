import Mathlib.Data.Char
import Mathlib.Data.List.Lex
import StudStuff.Lib.Execution
import StudStuff.Lib.SortedMap
import StudStuff.Students.Extraction

/-!
# `StudentList`

`student_list.h` and `student_list.cc`: a map from names to grades, which is read from lines and
written in the order of the names. What `Read` has done to the map when it throws stays done.

`Reads` says which lines are accepted one after another, and what the list is then. `Read` throws at
the first line that is rejected (`read_meets`), and everything that stands before that line is in
the list (`throws_keeps_front`).
-/

set_option autoImplicit false
set_option relaxedAutoImplicit false

namespace StudStuff.Students

open Lib

/-! ### The list -/

/-- `StudentList`. -/
structure StudentList where
  data : SortedMap (List Char) ℤ

/-- A stream that is read: whether it has failed, and what is left of it. -/
structure InputStream where
  failed : Bool
  text : List Char
  deriving DecidableEq, Repr

/-- A stream that is written: whether it has failed, and what was written to it. -/
structure OutputStream where
  failed : Bool
  text : List Char
  deriving DecidableEq, Repr

/-- A program over a list. An exception has a message, and leaves the list as it is then. -/
abbrev ListM := EStateM String StudentList

namespace StudentList

/-- The constructor. -/
def empty : StudentList := ⟨.empty⟩

/-- The students in the order of their names. -/
def students (list : StudentList) : List (List Char × ℤ) := list.data.entries

/-- The body of the loop of `Read`. -/
def readLine (line : List Char) : ListM Unit :=
  if line = [] then pure ()
  else
    match extractWord line with
    | none => throw "Invalid line format"
    | some (name, rest) =>
      match extractInt rest with
      | none => throw "Invalid line format"
      | some (grade, rest) =>
        if (extractWord rest).isSome then throw ("Extra data in line: " ++ String.ofList line)
        else if grade < 0 then throw "Grade can't be negative"
        else do
          let (data, isInserted) := (← get).data.emplace name grade
          set (StudentList.mk data)
          if isInserted = false then throw ("Duplicate student: " ++ String.ofList name)
          else pure ()

/-- The loop of `Read`. -/
def readLoop (input : List Char) : ListM Unit :=
  match _hnext : nextSegment '\n' input with
  | none => pure ()
  | some (line, rest) => do
    readLine line
    readLoop rest
termination_by input.length
decreasing_by exact length_nextSegment ‹_›

/-- `Read`. -/
def read (is : InputStream) : ListM Unit :=
  if is.failed then throw "Cannot read from stream" else readLoop is.text

/-- `os << text`. -/
def write (os : OutputStream) (text : List Char) : OutputStream :=
  if os.failed then os else { os with text := os.text ++ text }

/-- The loop of `Output`. -/
def outputLoop : List (List Char × ℤ) → OutputStream → OutputStream
  | [], os => os
  | (name, grade) :: students, os =>
    outputLoop students (write (write (write (write os name) [' ']) (printInt grade)) ['\n'])

/-- `Output`. -/
def output (list : StudentList) (os : OutputStream) : Except String OutputStream :=
  let os := outputLoop list.students os
  if os.failed then .error "Output failed" else .ok os

end StudentList

/-! ### Lines -/

section Lines

open StudentList

variable {line name : List Char} {grade : ℤ} {list : StudentList}

/-- The student on a line, if the line is a name, a grade that is not negative, and nothing else. -/
def studentOf (line : List Char) : Option (List Char × ℤ) := do
  let (name, rest) ← extractWord line
  let (grade, rest) ← extractInt rest
  if (extractWord rest).isSome ∨ grade < 0 then none else some (name, grade)

/-- The list with one more student. -/
def StudentList.added (list : StudentList) (name : List Char) (grade : ℤ) : StudentList :=
  ⟨(list.data.emplace name grade).1⟩

/-- A line that is not blank is rejected unless it has a student who is not in the list yet. -/
def StudentList.Rejects (list : StudentList) (line : List Char) : Prop :=
  line ≠ [] ∧ ∀ name grade, studentOf line = some (name, grade) → list.data.Has name

/-- A line is blank, or has a new student, or is rejected. -/
theorem line_cases (list : StudentList) (line : List Char) : line = [] ∨
    (∃ name grade, studentOf line = some (name, grade) ∧ ¬list.data.Has name) ∨
      list.Rejects line := by
  by_cases hnew : ∃ name grade, studentOf line = some (name, grade) ∧ ¬list.data.Has name
  · exact Or.inr (Or.inl hnew)
  · by_cases hblank : line = []
    · exact Or.inl hblank
    · refine Or.inr (Or.inr ⟨hblank, ?_⟩)
      intro name grade hline
      by_contra hfresh
      exact hnew ⟨name, grade, hline, hfresh⟩

theorem studentOf_nil : studentOf [] = none := rfl

/-- What is on the line of a student. -/
theorem studentOf_eq_some_iff : studentOf line = some (name, grade) ↔
    ∃ afterName afterGrade, extractWord line = some (name, afterName) ∧
      extractInt afterName = some (grade, afterGrade) ∧ extractWord afterGrade = none ∧
      0 ≤ grade := by
  rw [studentOf]
  constructor
  · intro h
    obtain ⟨⟨word, afterName⟩, hword, h⟩ := Option.bind_eq_some_iff.mp h
    obtain ⟨⟨value, afterGrade⟩, hvalue, h⟩ := Option.bind_eq_some_iff.mp h
    dsimp only at hvalue h
    split_ifs at h with hfails
    obtain ⟨rfl, rfl⟩ := Prod.mk.inj (Option.some.inj h)
    rw [not_or, Option.not_isSome_iff_eq_none, not_lt] at hfails
    exact ⟨afterName, afterGrade, hword, hvalue, hfails.1, hfails.2⟩
  · rintro ⟨afterName, afterGrade, hword, hvalue, hextra, hgrade⟩
    simp [hword, hvalue, hextra, hgrade]

theorem readLine_blank (list : StudentList) : readLine [] list = .ok () list := rfl

/-- The line of a student. -/
theorem readLine_apply (hline : studentOf line = some (name, grade)) :
    readLine line list = if list.data.Has name then
      .error ("Duplicate student: " ++ String.ofList name) list
    else .ok () (list.added name grade) := by
  obtain ⟨afterName, afterGrade, hword, hvalue, hextra, hgrade⟩ := studentOf_eq_some_iff.mp hline
  have hne : line ≠ [] := by
    rintro rfl
    cases hline
  rw [readLine, if_neg hne, hword]
  dsimp only
  rw [hvalue]
  dsimp only
  rw [hextra, if_neg (by simp), if_neg (not_lt.mpr hgrade), bind_ok (get_apply list)]
  by_cases hhas : list.data.Has name
  · rw [if_pos hhas, SortedMap.emplace_of_has hhas]
    rfl
  · have hinserted := SortedMap.emplace_snd hhas grade
    simp only [hinserted, if_neg hhas]
    rfl

theorem readLine_student (hline : studentOf line = some (name, grade))
    (hfresh : ¬list.data.Has name) : readLine line list = .ok () (list.added name grade) := by
  rw [readLine_apply hline, if_neg hfresh]

/-- A line that is rejected leaves the list as it is. -/
theorem readLine_rejected (h : list.Rejects line) :
    ∃ what, readLine line list = .error what list := by
  obtain ⟨hne, hheld⟩ := h
  cases hline : studentOf line with
  | some student =>
    refine ⟨"Duplicate student: " ++ String.ofList student.1, ?_⟩
    rw [readLine_apply hline, if_pos (hheld _ _ hline)]
  | none =>
    rw [readLine, if_neg hne]
    cases hword : extractWord line with
    | none => exact ⟨_, rfl⟩
    | some word =>
      dsimp only
      cases hvalue : extractInt word.2 with
      | none => exact ⟨_, rfl⟩
      | some value =>
        dsimp only
        split_ifs with hextra hnegative
        · exact ⟨_, rfl⟩
        · exact ⟨_, rfl⟩
        · have hstudent : studentOf line = some (word.1, value.1) := studentOf_eq_some_iff.mpr
            ⟨word.2, value.2, hword, hvalue, Option.not_isSome_iff_eq_none.mp hextra,
              not_lt.mp hnegative⟩
          cases hline.symm.trans hstudent

end Lines

/-! ### Reading -/

/-- The lines are accepted one after another: each is blank or has a new student. -/
inductive Reads : StudentList → List (List Char) → StudentList → Prop
  | nil (list : StudentList) : Reads list [] list
  | blank {list list' : StudentList} {lines : List (List Char)} (hrest : Reads list lines list') :
      Reads list ([] :: lines) list'
  | student {list list' : StudentList} {line name : List Char} {lines : List (List Char)}
      {grade : ℤ} (hline : studentOf line = some (name, grade)) (hfresh : ¬list.data.Has name)
      (hrest : Reads (list.added name grade) lines list') : Reads list (line :: lines) list'

section Reading

open StudentList

variable {input line name : List Char} {lines : List (List Char)} {grade : ℤ}
  {list list' : StudentList}

theorem mem_added (hfresh : ¬list.data.Has name) {student : List Char × ℤ} :
    student ∈ (list.added name grade).students ↔
      student = (name, grade) ∨ student ∈ list.students :=
  SortedMap.mem_emplace hfresh

/-- What is in the list after some lines were read. -/
theorem Reads.mem_iff (h : Reads list lines list') (student : List Char × ℤ) :
    student ∈ list'.students ↔
      student ∈ list.students ∨ ∃ line ∈ lines, studentOf line = some student := by
  induction h with
  | nil list => simp
  | blank _ ih =>
    rw [ih]
    simp [studentOf_nil]
  | student hline hfresh _ ih =>
    rw [ih, mem_added hfresh]
    simp only [List.mem_cons, exists_eq_or_imp, hline, Option.some.injEq]
    tauto

/-- The lines that were read are blank or have students who were not in the list before. -/
theorem Reads.blank_or_new (h : Reads list lines list') : ∀ line ∈ lines, line = [] ∨
    ∃ name grade, studentOf line = some (name, grade) ∧ ¬list.data.Has name := by
  induction h with
  | nil list => simp
  | blank _ ih => simpa using ih
  | student hline hfresh _ ih =>
    refine List.forall_mem_cons.mpr ⟨Or.inr ⟨_, _, hline, hfresh⟩, ?_⟩
    intro line hmem
    refine (ih line hmem).imp_right ?_
    rintro ⟨name, grade, hother, hnew⟩
    refine ⟨name, grade, hother, ?_⟩
    rintro ⟨student, hstudent, rfl⟩
    exact hnew ⟨student, (mem_added hfresh).mpr (Or.inr hstudent), rfl⟩

/-- Reading changes the list unless all lines are blank. -/
theorem Reads.eq_iff (h : Reads list lines list') : list' = list ↔ ∀ line ∈ lines, line = [] := by
  constructor
  · rintro rfl line hmem
    rcases h.blank_or_new line hmem with hblank | ⟨name, grade, hline, hfresh⟩
    · exact hblank
    · have hstudent := (h.mem_iff (name, grade)).mpr (Or.inr ⟨line, hmem, hline⟩)
      exact absurd ⟨_, hstudent, rfl⟩ hfresh
  · intro hblank
    induction h with
    | nil list => rfl
    | blank _ ih => exact ih (List.forall_mem_cons.mp hblank).2
    | student hline _ _ _ =>
      rw [(List.forall_mem_cons.mp hblank).1] at hline
      cases hline

theorem readLoop_nil (list : StudentList) : readLoop [] list = .ok () list := by
  rw [readLoop]
  rfl

theorem readLoop_next {rest : List Char} (hnext : nextSegment '\n' input = some (line, rest)) :
    readLoop input = readLine line >>= fun _ ↦ readLoop rest := by
  rw [readLoop]
  split
  · next hnone => cases hnext.symm.trans hnone
  · next line' rest' hnext' =>
    obtain ⟨rfl, rfl⟩ := Prod.mk.inj (Option.some.inj (hnext.symm.trans hnext'))
    rfl

/-- `Read` accepts all lines, or it throws at the first line that is rejected. The induction is on
the input. -/
theorem readLoop_meets (input : List Char) (list : StudentList) :
    Meets (readLoop input) (fun _ list' ↦ Reads list (segments '\n' input) list')
      (fun _ list' ↦ ∃ before line after, segments '\n' input = before ++ line :: after ∧
        Reads list before list' ∧ list'.Rejects line) list := by
  induction input using segment_induction '\n' generalizing list with
  | nil => exact .of_ok (readLoop_nil list) (.nil list)
  | next input line rest hnext ih =>
    rw [readLoop_next hnext, segments_next hnext]
    rcases line_cases list line with rfl | ⟨name, grade, hline, hfresh⟩ | hrejects
    · refine .of_step (bind_ok (readLine_blank list)) ((ih list).mono ?_ ?_)
      · exact fun _ _ hreads ↦ .blank hreads
      · rintro _ list' ⟨before, other, after, hlines, hreads, hrejects⟩
        exact ⟨[] :: before, other, after, congrArg _ hlines, .blank hreads, hrejects⟩
    · refine .of_step (bind_ok (readLine_student hline hfresh)) ((ih _).mono ?_ ?_)
      · exact fun _ _ hreads ↦ .student hline hfresh hreads
      · rintro _ list' ⟨before, other, after, hlines, hreads, hrejects⟩
        exact ⟨line :: before, other, after, congrArg _ hlines, .student hline hfresh hreads,
          hrejects⟩
    · obtain ⟨what, hwhat⟩ := readLine_rejected hrejects
      exact .of_error (bind_error hwhat) ⟨[], line, _, rfl, .nil list, hrejects⟩

/-- What is accepted line by line is read. -/
theorem readLoop_of_reads (h : Reads list (segments '\n' input) list') :
    readLoop input list = .ok () list' := by
  induction input using segment_induction '\n' generalizing list with
  | nil =>
    cases h
    exact readLoop_nil _
  | next input line rest hnext ih =>
    rw [segments_next hnext] at h
    rw [readLoop_next hnext]
    cases h with
    | blank hrest => exact (bind_ok (readLine_blank _)).trans (ih hrest)
    | student hline hfresh hrest =>
      exact (bind_ok (readLine_student hline hfresh)).trans (ih hrest)

end Reading

/-! ### Which lines are accepted -/

/-- The students on some lines. -/
def studentsOf (lines : List (List Char)) : List (List Char × ℤ) := lines.filterMap studentOf

/-- Lines that can be added to a list: each is blank or has a student, and the names are new and
distinct. -/
structure Accepts (list : StudentList) (lines : List (List Char)) : Prop where
  valid : ∀ line ∈ lines, line = [] ∨ (studentOf line).isSome
  names : ((studentsOf lines).map Prod.fst).Nodup
  fresh : ∀ student ∈ studentsOf lines, ¬list.data.Has student.1

section Accepts

variable {line name : List Char} {grade : ℤ} {lines lines' : List (List Char)}
  {list list' : StudentList}

theorem mem_studentsOf {student : List Char × ℤ} :
    student ∈ studentsOf lines ↔ ∃ line ∈ lines, studentOf line = some student :=
  List.mem_filterMap

theorem studentsOf_blank (lines : List (List Char)) : studentsOf ([] :: lines) = studentsOf lines :=
  List.filterMap_cons_none studentOf_nil

theorem studentsOf_student (hline : studentOf line = some (name, grade))
    (lines : List (List Char)) :
    studentsOf (line :: lines) = (name, grade) :: studentsOf lines :=
  List.filterMap_cons_some hline

theorem has_added (hfresh : ¬list.data.Has name) {other : List Char} :
    (list.added name grade).data.Has other ↔ other = name ∨ list.data.Has other := by
  constructor
  · rintro ⟨student, hstudent, rfl⟩
    rcases (mem_added hfresh).mp hstudent with rfl | hold
    · exact Or.inl rfl
    · exact Or.inr ⟨student, hold, rfl⟩
  · rintro (rfl | ⟨student, hstudent, rfl⟩)
    · exact ⟨_, (mem_added hfresh).mpr (Or.inl rfl), rfl⟩
    · exact ⟨student, (mem_added hfresh).mpr (Or.inr hstudent), rfl⟩

/-- A blank line makes no difference. -/
theorem accepts_blank : Accepts list ([] :: lines) ↔ Accepts list lines := by
  constructor
  · intro h
    refine ⟨(List.forall_mem_cons.mp h.valid).2, ?_, ?_⟩
    · exact studentsOf_blank lines ▸ h.names
    · exact studentsOf_blank lines ▸ h.fresh
  · intro h
    refine ⟨List.forall_mem_cons.mpr ⟨Or.inl rfl, h.valid⟩, ?_, ?_⟩
    · exact (studentsOf_blank lines).symm ▸ h.names
    · exact (studentsOf_blank lines).symm ▸ h.fresh

/-- The line of a student who is not in the list. -/
theorem accepts_student (hline : studentOf line = some (name, grade)) :
    Accepts list (line :: lines) ↔
      ¬list.data.Has name ∧ Accepts (list.added name grade) lines := by
  constructor
  · intro h
    have hnames := h.names
    have hfreshs := h.fresh
    rw [studentsOf_student hline] at hnames hfreshs
    obtain ⟨hnew, hnames⟩ := List.nodup_cons.mp hnames
    obtain ⟨hfresh, hothers⟩ := List.forall_mem_cons.mp hfreshs
    refine ⟨hfresh, (List.forall_mem_cons.mp h.valid).2, hnames, ?_⟩
    intro student hstudent hhas
    rcases (has_added hfresh).mp hhas with hsame | hold
    · exact hnew (hsame ▸ List.mem_map_of_mem hstudent)
    · exact hothers student hstudent hold
  · rintro ⟨hfresh, h⟩
    have hnew : ∀ student ∈ studentsOf lines, student.1 ≠ name ∧ ¬list.data.Has student.1 :=
      fun student hstudent ↦ not_or.mp (mt (has_added hfresh).mpr (h.fresh student hstudent))
    refine ⟨List.forall_mem_cons.mpr ⟨Or.inr (by rw [hline]; rfl), h.valid⟩, ?_, ?_⟩
    · rw [studentsOf_student hline, List.map_cons, List.nodup_cons]
      refine ⟨fun hmem ↦ ?_, h.names⟩
      obtain ⟨student, hstudent, hsame⟩ := List.mem_map.mp hmem
      exact (hnew student hstudent).1 hsame
    · rw [studentsOf_student hline]
      exact List.forall_mem_cons.mpr ⟨hfresh, fun student hstudent ↦ (hnew student hstudent).2⟩

theorem Reads.accepts (h : Reads list lines list') : Accepts list lines := by
  induction h with
  | nil list => exact ⟨List.forall_mem_nil _, List.nodup_nil, List.forall_mem_nil _⟩
  | blank _ ih => exact accepts_blank.mpr ih
  | student hline hfresh _ ih => exact (accepts_student hline).mpr ⟨hfresh, ih⟩

end Accepts

/-! ### Input that is rejected -/

section Rejected

open StudentList

/-- When `Read` throws, the stream had failed and nothing was read, or there is a first line that is
rejected: every line before it is blank or has a student, and the names of these students are new
and distinct. The list then holds what it held before and the students of these lines. It is as
before exactly when these lines are blank. -/
theorem throws_keeps_front (is : InputStream) (list list' : StudentList) (what : String)
    (hthrows : StudentList.read is list = .error what list') :
    is.failed = true ∧ list' = list ∨
      ∃ before line after, segments '\n' is.text = before ++ line :: after ∧
        Accepts list before ∧ list'.Rejects line ∧
        (∀ student, student ∈ list'.students ↔
          student ∈ list.students ∨ ∃ earlier ∈ before, studentOf earlier = some student) ∧
        (list' = list ↔ ∀ earlier ∈ before, earlier = []) := by
  rw [StudentList.read] at hthrows
  split_ifs at hthrows with hfailed
  · cases hthrows
    exact Or.inl ⟨hfailed, rfl⟩
  · obtain ⟨before, line, after, hlines, hreads, hrejects⟩ :=
      (readLoop_meets is.text list).error hthrows
    exact Or.inr ⟨before, line, after, hlines, hreads.accepts, hrejects, hreads.mem_iff,
      hreads.eq_iff⟩

/-- The lines of two students with a blank line between them, and the first student again. -/
def oneTwice : InputStream := ⟨false, "a 1\n\nb 2\na 3\nc 4".toList⟩

/-- The two students are in the list when the fourth line is rejected. -/
theorem read_oneTwice : ∃ what, StudentList.read oneTwice .empty =
    .error what ((StudentList.empty.added ['a'] 1).added ['b'] 2) := by
  have hfirst : nextSegment '\n' "a 1\n\nb 2\na 3\nc 4".toList =
      some ("a 1".toList, "\nb 2\na 3\nc 4".toList) := by decide
  have hblank : nextSegment '\n' "\nb 2\na 3\nc 4".toList =
      some ([], "b 2\na 3\nc 4".toList) := by decide
  have hsecond : nextSegment '\n' "b 2\na 3\nc 4".toList =
      some ("b 2".toList, "a 3\nc 4".toList) := by decide
  have hagain : nextSegment '\n' "a 3\nc 4".toList = some ("a 3".toList, "c 4".toList) := by
    decide
  have hstudent : studentOf "a 1".toList = some (['a'], 1) := by decide
  have hother : studentOf "b 2".toList = some (['b'], 2) := by decide
  have hsame : studentOf "a 3".toList = some (['a'], 3) := by decide
  have hfresh : ¬StudentList.empty.data.Has ['a'] := by decide
  have hfresh' : ¬(StudentList.empty.added ['a'] 1).data.Has ['b'] := by decide
  have hheld : ((StudentList.empty.added ['a'] 1).added ['b'] 2).data.Has ['a'] := by decide
  refine ⟨"Duplicate student: " ++ String.ofList ['a'], ?_⟩
  rw [StudentList.read, oneTwice, if_neg Bool.false_ne_true, readLoop_next hfirst,
    bind_ok (readLine_student hstudent hfresh), readLoop_next hblank, bind_ok (readLine_blank _),
    readLoop_next hsecond, bind_ok (readLine_student hother hfresh'), readLoop_next hagain]
  exact bind_error ((readLine_apply hsame).trans (if_pos hheld))

/-- The list is not as it was before the call that threw. -/
theorem throws_breaks_rollback : ¬∀ (is : InputStream) (list list' : StudentList) (what : String),
    StudentList.read is list = .error what list' →
      ∀ student, student ∈ list'.students ↔ student ∈ list.students := by
  intro hall
  obtain ⟨what, hthrows⟩ := read_oneTwice
  have hadded : (['b'], 2) ∈ ((StudentList.empty.added ['a'] 1).added ['b'] 2).students :=
    (mem_added (by decide)).mpr (Or.inl rfl)
  cases (hall _ _ _ _ hthrows _).mp hadded

/-- The list after the rejected line. -/
theorem throws_keeps_front_oneTwice : ∃ what,
    let list' := (StudentList.empty.added ['a'] 1).added ['b'] 2
    StudentList.read oneTwice .empty = .error what list' ∧
      (oneTwice.failed = true ∧ list' = .empty ∨
        ∃ before line after, segments '\n' oneTwice.text = before ++ line :: after ∧
          Accepts .empty before ∧ list'.Rejects line ∧
          (∀ student, student ∈ list'.students ↔ student ∈ StudentList.empty.students ∨
            ∃ earlier ∈ before, studentOf earlier = some student) ∧
          (list' = .empty ↔ ∀ earlier ∈ before, earlier = [])) := by
  obtain ⟨what, hthrows⟩ := read_oneTwice
  exact ⟨what, hthrows, throws_keeps_front _ _ _ _ hthrows⟩

end Rejected

end StudStuff.Students
