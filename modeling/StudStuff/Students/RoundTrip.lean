import StudStuff.Students.StudentList

/-!
# The round trip of a student list

`Output` writes a list of students in the order of their names, and `Read` reads what was written
into the same list (`read_output`). The names and grades that `Read` accepts are those that are
written in a form that it reads back (`IsStudent`, `studentOf_lineOf`).
-/

set_option autoImplicit false
set_option relaxedAutoImplicit false

namespace StudStuff.Students

open Lib Lib.Decimal

/-! ### What a list can hold -/

/-- A student whom `Read` accepts: the name is a word, and the grade is an `int` that is not
negative. -/
def IsStudent (student : List Char × ℤ) : Prop :=
  IsWord student.1 ∧ 0 ≤ student.2 ∧ student.2 < 2 ^ 31

/-- The line that `Output` writes for a student. -/
def lineOf (student : List Char × ℤ) : List Char := student.1 ++ ' ' :: printInt student.2

section Lines

variable {line : List Char} {student : List Char × ℤ}

theorem isStudent_studentOf (h : studentOf line = some student) : IsStudent student := by
  obtain ⟨name, grade⟩ := student
  obtain ⟨afterName, afterGrade, hword, hvalue, -, hgrade⟩ := studentOf_eq_some_iff.mp h
  exact ⟨isWord_extractWord hword, hgrade, (bounds_extractInt hvalue).2⟩

/-- The line of a student is read back. -/
theorem studentOf_lineOf (h : IsStudent student) : studentOf (lineOf student) = some student := by
  obtain ⟨name, grade⟩ := student
  obtain ⟨hword, hgrade, hlt⟩ := h
  have hspace : ∀ ch ∈ (' ' :: printInt grade).head?, isSpace ch = true := by
    intro ch hmem
    rw [← Option.some.inj hmem]
    rfl
  exact studentOf_eq_some_iff.mpr ⟨_, _, extractWord_word hword hspace,
    extractInt_printInt hgrade hlt, extractWord_nil, hgrade⟩

/-- The line of a student is one line. -/
theorem newline_lineOf (h : IsStudent student) : '\n' ∉ lineOf student := by
  obtain ⟨⟨-, hchars⟩, hgrade, -⟩ := h
  rw [lineOf, List.mem_append, List.mem_cons, printInt, if_neg (not_lt.mpr hgrade)]
  rintro (hname | hspace | hdigits)
  · cases hchars '\n' hname
  · cases hspace
  · cases isDigit_toDigits _ '\n' hdigits

end Lines

/-! ### Writing and reading -/

section RoundTrip

variable {list list' : StudentList} {lines : List (List Char)} {students : List (List Char × ℤ)}

theorem Reads.isStudent (h : Reads list lines list')
    (hvalid : ∀ student ∈ list.students, IsStudent student) :
    ∀ student ∈ list'.students, IsStudent student := by
  intro student hmem
  rcases (h.mem_iff student).mp hmem with hold | ⟨line, -, hline⟩
  · exact hvalid student hold
  · exact isStudent_studentOf hline

theorem isStudent_empty : ∀ student ∈ StudentList.empty.students, IsStudent student :=
  fun _ hmem ↦ nomatch hmem

/-- What `Output` writes to a stream that has not failed. -/
theorem outputLoop_eq (students : List (List Char × ℤ)) (text : List Char) :
    StudentList.outputLoop students ⟨false, text⟩ =
      ⟨false, text ++ terminated '\n' (students.map lineOf)⟩ := by
  induction students generalizing text with
  | nil => exact congrArg (OutputStream.mk false) (List.append_nil text).symm
  | cons student students ih =>
    rw [StudentList.outputLoop]
    simp only [StudentList.write, if_neg Bool.false_ne_true, ih, List.map_cons, terminated_cons,
      lineOf]
    simp

theorem output_eq (list : StudentList) (text : List Char) : list.output ⟨false, text⟩ =
    .ok ⟨false, text ++ terminated '\n' (list.students.map lineOf)⟩ := by
  rw [StudentList.output, outputLoop_eq]
  rfl

/-- The lines of students with distinct names are accepted. -/
theorem reads_lines (hvalid : ∀ student ∈ students, IsStudent student)
    (hsorted : students.Pairwise fun student student' ↦ student.1 < student'.1)
    (hfresh : ∀ student ∈ students, ¬list.data.Has student.1) :
    ∃ list', Reads list (students.map lineOf) list' := by
  induction students generalizing list with
  | nil => exact ⟨list, .nil list⟩
  | cons student students ih =>
    obtain ⟨name, grade⟩ := student
    obtain ⟨hstudent, hothers⟩ := List.forall_mem_cons.mp hvalid
    obtain ⟨hnew, hnews⟩ := List.forall_mem_cons.mp hfresh
    obtain ⟨hless, hrest⟩ := List.pairwise_cons.mp hsorted
    have hfresh' : ∀ student ∈ students, ¬(list.added name grade).data.Has student.1 := by
      rintro student hmem ⟨other, hother, hsame⟩
      rcases (mem_added hnew).mp hother with rfl | hold
      · exact (hless student hmem).ne hsame
      · exact hnews student hmem ⟨other, hold, hsame⟩
    obtain ⟨list', hreads⟩ := ih hothers hrest hfresh'
    exact ⟨list', .student (studentOf_lineOf hstudent) hnew hreads⟩

/-- Two lists with the same students are the same. -/
theorem eq_of_students (h : ∀ student, student ∈ list.students ↔ student ∈ list'.students) :
    list = list' :=
  congrArg StudentList.mk (SortedMap.eq_of_mem_iff h)

/-- What `Output` writes is accepted, and gives the same list. -/
theorem reads_output (hvalid : ∀ student ∈ list.students, IsStudent student) :
    Reads .empty (list.students.map lineOf) list := by
  have hfresh : ∀ student ∈ list.students, ¬StudentList.empty.data.Has student.1 := by
    rintro student - ⟨other, hother, -⟩
    cases hother
  obtain ⟨list', hreads⟩ := reads_lines hvalid list.data.sorted hfresh
  have hsame : list' = list := by
    apply eq_of_students
    intro student
    rw [hreads.mem_iff]
    constructor
    · rintro (hnone | ⟨line, hline, hstudent⟩)
      · cases hnone
      · obtain ⟨other, hother, rfl⟩ := List.mem_map.mp hline
        rw [studentOf_lineOf (hvalid other hother), Option.some.injEq] at hstudent
        exact hstudent ▸ hother
    · intro hmem
      exact Or.inr ⟨_, List.mem_map_of_mem hmem, studentOf_lineOf (hvalid student hmem)⟩
  exact hsame ▸ hreads

theorem read_output (hvalid : ∀ student ∈ list.students, IsStudent student) :
    StudentList.read ⟨false, terminated '\n' (list.students.map lineOf)⟩ .empty = .ok () list := by
  have hlines : ∀ line ∈ list.students.map lineOf, '\n' ∉ line := by
    intro line hline
    obtain ⟨student, hmem, rfl⟩ := List.mem_map.mp hline
    exact newline_lineOf (hvalid student hmem)
  rw [StudentList.read, if_neg Bool.false_ne_true]
  apply readLoop_of_reads
  rw [segments_terminated hlines]
  exact reads_output hvalid

/-- What is written of a list that was read is read into the same list, and written again as the
same text. It has one line for each student on a line of the original, in the order of the names. -/
theorem output_roundTrip (text : List Char) (list : StudentList)
    (hread : StudentList.read ⟨false, text⟩ .empty = .ok () list) :
    ∃ written, list.output ⟨false, []⟩ = .ok ⟨false, written⟩ ∧
      (∃ list', StudentList.read ⟨false, written⟩ .empty = .ok () list' ∧ list'.data = list.data ∧
        list'.output ⟨false, []⟩ = .ok ⟨false, written⟩) ∧
      ∃ students : List (List Char × ℤ), written = terminated '\n' (students.map lineOf) ∧
        students.Pairwise (fun student student' ↦ student.1 < student'.1) ∧
        ∀ student, student ∈ students ↔
          ∃ line ∈ segments '\n' text, studentOf line = some student := by
  have hreads : Reads .empty (segments '\n' text) list := (readLoop_meets text .empty).ok hread
  have hwritten : list.output ⟨false, []⟩ =
      .ok ⟨false, terminated '\n' (list.students.map lineOf)⟩ := output_eq list []
  have hvalid := hreads.isStudent isStudent_empty
  refine ⟨_, hwritten, ⟨list, read_output hvalid, rfl, hwritten⟩, list.students, rfl,
    list.data.sorted, ?_⟩
  intro student
  rw [hreads.mem_iff]
  exact or_iff_right List.not_mem_nil

/-- Two students with grades that are not written in the shortest way, and a blank line. -/
def twoStudents : List Char := ['b', ' ', '+', '0', '7', '\n', '\n', 'a', '\t', '-', '0']

theorem output_roundTrip_twoStudents : ∃ list,
    StudentList.read ⟨false, twoStudents⟩ .empty = .ok () list ∧
    ∃ written, list.output ⟨false, []⟩ = .ok ⟨false, written⟩ ∧
      (∃ list', StudentList.read ⟨false, written⟩ .empty = .ok () list' ∧ list'.data = list.data ∧
        list'.output ⟨false, []⟩ = .ok ⟨false, written⟩) ∧
      ∃ students : List (List Char × ℤ), written = terminated '\n' (students.map lineOf) ∧
        students.Pairwise (fun student student' ↦ student.1 < student'.1) ∧
        ∀ student, student ∈ students ↔
          ∃ line ∈ segments '\n' twoStudents, studentOf line = some student := by
  have hlines : segments '\n' twoStudents =
      [['b', ' ', '+', '0', '7'], [], ['a', '\t', '-', '0']] := rfl
  have hfirst : studentOf ['b', ' ', '+', '0', '7'] = some (['b'], 7) := rfl
  have hsecond : studentOf ['a', '\t', '-', '0'] = some (['a'], 0) := rfl
  have hreads : Reads .empty (segments '\n' twoStudents)
      ((StudentList.empty.added ['b'] 7).added ['a'] 0) := by
    rw [hlines]
    exact .student hfirst (by decide) (.blank (.student hsecond (by decide) (.nil _)))
  exact ⟨_, readLoop_of_reads hreads, output_roundTrip _ _ (readLoop_of_reads hreads)⟩

end RoundTrip

end StudStuff.Students
