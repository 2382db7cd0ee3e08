import StudStuff.Students.RoundTrip

/-!
# Reading several streams

`Read` adds to what the list holds, so a list can be read from several streams, one after another.
Whether all of them are accepted depends on their lines alone: each that is not blank has a student,
and no name comes twice. The list then holds these students (`readAll_returns_iff`), so it makes no
difference how the lines are ordered and split into streams (`readAll_congr`). `GetMaxGradeStudent`
finds the first of the best students in the order of the names (`getMaxGradeStudent_iff`).
-/

set_option autoImplicit false
set_option relaxedAutoImplicit false

namespace StudStuff.Students

open Lib

/-! ### The best student -/

namespace StudentList

/-- The loop of `std::ranges::max_element`, which has found a largest student so far. -/
def maxElement (largest : List Char × ℤ) : List (List Char × ℤ) → List Char × ℤ
  | [] => largest
  | student :: students => maxElement (if largest.2 < student.2 then student else largest) students

/-- `GetMaxGradeStudent`. The end of the list is `none`. -/
def getMaxGradeStudent (list : StudentList) : Option (List Char × ℤ) :=
  match list.students with
  | [] => none
  | student :: students => some (maxElement student students)

/-- Calls of `Read`, for one stream after another. -/
def readAll : List InputStream → ListM Unit
  | [] => pure ()
  | is :: streams => do
    read is
    readAll streams

end StudentList

/-- A student is the first of the best: each other one has a lower grade, or the same grade and a
later name. -/
def Best (students : List (List Char × ℤ)) (best : List Char × ℤ) : Prop :=
  best ∈ students ∧ ∀ student ∈ students,
    student.2 < best.2 ∨ student.2 = best.2 ∧ best.1 ≤ student.1

section Best

variable {best largest : List Char × ℤ} {front students : List (List Char × ℤ)}

/-- The loop keeps the first of the best students that it has seen. -/
theorem best_maxElement (hbest : Best front largest)
    (hsorted : (front ++ students).Pairwise fun student student' ↦ student.1 < student'.1) :
    Best (front ++ students) (StudentList.maxElement largest students) := by
  induction students generalizing front largest with
  | nil => rwa [List.append_nil]
  | cons student students ih =>
    rw [List.append_cons] at hsorted ⊢
    refine ih ?_ hsorted
    have hlater : ∀ other ∈ front, other.1 < student.1 := by
      intro other hother
      have hpair := (List.pairwise_append.mp (List.pairwise_append.mp hsorted).1).2.2
      exact hpair other hother student (List.mem_singleton_self student)
    split_ifs with hless
    · refine ⟨List.mem_append_right _ (List.mem_singleton_self student), ?_⟩
      refine List.forall_mem_append.mpr ⟨fun other hother ↦ Or.inl ?_, ?_⟩
      · rcases hbest.2 other hother with hlower | ⟨hsame, -⟩
        · exact hlower.trans hless
        · exact hsame ▸ hless
      · exact List.forall_mem_singleton.mpr (Or.inr ⟨rfl, le_rfl⟩)
    · refine ⟨List.mem_append_left _ hbest.1, List.forall_mem_append.mpr ⟨hbest.2, ?_⟩⟩
      refine List.forall_mem_singleton.mpr ?_
      rcases lt_or_eq_of_le (not_lt.mp hless) with hlower | hsame
      · exact Or.inl hlower
      · exact Or.inr ⟨hsame, (hlater largest hbest.1).le⟩

/-- There is only one first of the best. -/
theorem Best.unique {list : StudentList} (h : Best list.students best)
    (h' : Best list.students largest) : best = largest := by
  have hgrade : best.2 = largest.2 := by
    rcases h.2 _ h'.1 with hlt | ⟨heq, -⟩ <;> rcases h'.2 _ h.1 with hlt' | ⟨heq', -⟩ <;> omega
  have hname : best.1 = largest.1 := by
    refine le_antisymm ?_ ?_
    · exact ((h.2 _ h'.1).resolve_left (by omega)).2
    · exact ((h'.2 _ h.1).resolve_left (by omega)).2
  exact Prod.ext hname hgrade

theorem getMaxGradeStudent_eq_some_iff {list : StudentList} :
    list.getMaxGradeStudent = some best ↔ Best list.students best := by
  have hsorted := list.data.sorted
  have hdata : list.data.entries = list.students := rfl
  rw [hdata] at hsorted
  rw [StudentList.getMaxGradeStudent]
  cases hstudents : list.students with
  | nil => exact iff_of_false (fun hsome ↦ nomatch hsome) fun hbest ↦ nomatch hbest.1
  | cons student students =>
    have hfirst : Best [student] student :=
      ⟨List.mem_singleton_self student, List.forall_mem_singleton.mpr (Or.inr ⟨rfl, le_rfl⟩)⟩
    have hfound := best_maxElement hfirst (hstudents ▸ hsorted)
    rw [List.singleton_append, ← hstudents] at hfound
    dsimp only
    rw [Option.some.injEq, ← hstudents]
    exact ⟨fun heq ↦ heq ▸ hfound, fun hbest ↦ hfound.unique hbest⟩

theorem getMaxGradeStudent_eq_none_iff {list : StudentList} :
    list.getMaxGradeStudent = none ↔ list.students = [] := by
  rw [StudentList.getMaxGradeStudent]
  cases list.students with
  | nil => exact iff_of_true rfl rfl
  | cons student students => exact iff_of_false (fun hnone ↦ nomatch hnone) (List.cons_ne_nil _ _)

end Best

/-! ### Lines that are accepted -/

section Accepts

variable {line name : List Char} {grade : ℤ} {lines lines' : List (List Char)}
  {list list' : StudentList}

theorem Accepts.reads (h : Accepts list lines) : ∃ list', Reads list lines list' := by
  induction lines generalizing list with
  | nil => exact ⟨list, .nil list⟩
  | cons line lines ih =>
    rcases h.valid line List.mem_cons_self with rfl | hvalid
    · obtain ⟨list', hreads⟩ := ih (accepts_blank.mp h)
      exact ⟨list', .blank hreads⟩
    · obtain ⟨⟨name, grade⟩, hline⟩ := Option.isSome_iff_exists.mp hvalid
      obtain ⟨hfresh, hrest⟩ := (accepts_student hline).mp h
      obtain ⟨list', hreads⟩ := ih hrest
      exact ⟨list', .student hline hfresh hreads⟩

/-- Lines are read one after another if they are accepted, and then their students are added. -/
theorem reads_iff : Reads list lines list' ↔ Accepts list lines ∧
    ∀ student, student ∈ list'.students ↔ student ∈ list.students ∨ student ∈ studentsOf lines := by
  constructor
  · intro h
    exact ⟨h.accepts, fun student ↦ (h.mem_iff student).trans
      (or_congr_right mem_studentsOf.symm)⟩
  · rintro ⟨haccepts, hstudents⟩
    obtain ⟨other, hreads⟩ := haccepts.reads
    have hsame : list' = other := eq_of_students fun student ↦ (hstudents student).trans
      ((or_congr_right mem_studentsOf).trans (hreads.mem_iff student).symm)
    exact hsame ▸ hreads

/-- The lines that are not blank. -/
def written (lines : List (List Char)) : List (List Char) := lines.filter (· ≠ [])

theorem mem_written : line ∈ written lines ↔ line ∈ lines ∧ line ≠ [] := by
  rw [written, List.mem_filter, decide_eq_true_iff]

/-- Blank lines have no students. -/
theorem studentsOf_written (lines : List (List Char)) :
    studentsOf (written lines) = studentsOf lines := by
  induction lines with
  | nil => rfl
  | cons line lines ih =>
    by_cases hblank : line = []
    · rw [hblank, studentsOf_blank, ← ih]
      rfl
    · have hfirst : written (line :: lines) = line :: written lines :=
        List.filter_cons_of_pos (decide_eq_true hblank)
      rw [hfirst, studentsOf, studentsOf, List.filterMap_cons, List.filterMap_cons, ← studentsOf,
        ← studentsOf, ih]

theorem studentsOf_perm (hperm : (written lines).Perm (written lines')) :
    (studentsOf lines).Perm (studentsOf lines') := by
  rw [← studentsOf_written lines, ← studentsOf_written lines']
  exact hperm.filterMap studentOf

/-- Neither the order of the lines nor blank lines make a difference. -/
theorem Accepts.congr (h : Accepts list lines) (hperm : (written lines).Perm (written lines')) :
    Accepts list lines' := by
  have hstudents := studentsOf_perm hperm
  refine ⟨fun line hline ↦ ?_, ?_, fun student hstudent ↦ ?_⟩
  · by_cases hblank : line = []
    · exact Or.inl hblank
    · have hmem := hperm.mem_iff.mpr (mem_written.mpr ⟨hline, hblank⟩)
      exact h.valid line (mem_written.mp hmem).1
  · exact (hstudents.map Prod.fst).nodup_iff.mp h.names
  · exact h.fresh student (hstudents.mem_iff.mpr hstudent)

theorem Reads.congr (h : Reads list lines list') (hperm : (written lines).Perm (written lines')) :
    Reads list lines' list' := by
  obtain ⟨haccepts, hstudents⟩ := reads_iff.mp h
  refine reads_iff.mpr ⟨haccepts.congr hperm, fun student ↦ (hstudents student).trans ?_⟩
  exact or_congr_right (studentsOf_perm hperm).mem_iff

end Accepts

/-! ### Several streams -/

section Streams

open StudentList

variable {is : InputStream} {streams streams' : List InputStream} {lines lines' : List (List Char)}
  {list list' : StudentList}

/-- The lines of all streams. -/
def allLines (streams : List InputStream) : List (List Char) :=
  streams.flatMap fun is ↦ segments '\n' is.text

/-- Reading goes on where it ended. -/
theorem reads_append : Reads list (lines ++ lines') list' ↔
    ∃ middle, Reads list lines middle ∧ Reads middle lines' list' := by
  constructor
  · intro h
    induction lines generalizing list with
    | nil => exact ⟨list, .nil list, h⟩
    | cons line lines ih =>
      rw [List.cons_append] at h
      cases h with
      | blank hrest =>
        obtain ⟨middle, hfirst, hsecond⟩ := ih hrest
        exact ⟨middle, .blank hfirst, hsecond⟩
      | student hline hfresh hrest =>
        obtain ⟨middle, hfirst, hsecond⟩ := ih hrest
        exact ⟨middle, .student hline hfresh hfirst, hsecond⟩
  · rintro ⟨middle, hfirst, hsecond⟩
    induction hfirst with
    | nil list => exact hsecond
    | blank _ ih => exact .blank (ih hsecond)
    | student hline hfresh _ ih => exact .student hline hfresh (ih hsecond)

theorem read_ok_iff : read is list = .ok () list' ↔
    is.failed = false ∧ Reads list (segments '\n' is.text) list' := by
  rw [StudentList.read]
  constructor
  · intro hrun
    split_ifs at hrun with hfailed
    · cases hrun
    · exact ⟨Bool.eq_false_iff.mpr hfailed, (readLoop_meets is.text list).ok hrun⟩
  · rintro ⟨hgood, hreads⟩
    rw [hgood, if_neg Bool.false_ne_true]
    exact readLoop_of_reads hreads

/-- What several calls of `Read` do. The induction is on the streams. -/
theorem readAll_ok_iff : readAll streams list = .ok () list' ↔
    (∀ is ∈ streams, is.failed = false) ∧ Reads list (allLines streams) list' := by
  induction streams generalizing list with
  | nil =>
    constructor
    · intro hrun
      cases hrun
      exact ⟨List.forall_mem_nil _, .nil _⟩
    · rintro ⟨-, hreads⟩
      cases hreads
      rfl
  | cons is streams ih =>
    rw [List.forall_mem_cons, allLines, List.flatMap_cons, reads_append]
    constructor
    · intro hrun
      obtain ⟨_, middle, hfirst, hrest⟩ := exists_of_bind_ok hrun
      obtain ⟨hgood, hreads⟩ := read_ok_iff.mp hfirst
      obtain ⟨hgoods, hreads'⟩ := ih.mp hrest
      exact ⟨⟨hgood, hgoods⟩, middle, hreads, hreads'⟩
    · rintro ⟨⟨hgood, hgoods⟩, middle, hreads, hreads'⟩
      exact (bind_ok (read_ok_iff.mpr ⟨hgood, hreads⟩)).trans (ih.mpr ⟨hgoods, hreads'⟩)

/-- Two streams, with two best students of the same grade. -/
def tie : List InputStream := [⟨false, "b 2\n\nc 1\n".toList⟩, ⟨false, "a 2".toList⟩]

theorem good_tie : ∀ is ∈ tie, is.failed = false := by simp [tie]

/-- All three students are read. -/
theorem readAll_tie : readAll tie .empty =
    .ok () (((StudentList.empty.added ['b'] 2).added ['c'] 1).added ['a'] 2) := by
  have hlines : allLines tie = ["b 2".toList, [], "c 1".toList, "a 2".toList] := by decide
  have hfirst : studentOf "b 2".toList = some (['b'], 2) := by decide
  have hsecond : studentOf "c 1".toList = some (['c'], 1) := by decide
  have hthird : studentOf "a 2".toList = some (['a'], 2) := by decide
  refine readAll_ok_iff.mpr ⟨good_tie, ?_⟩
  rw [hlines]
  exact .student hfirst (by decide) (.blank (.student hsecond (by decide)
    (.student hthird (by decide) (.nil _))))

/-- It makes no difference how the lines are ordered and split into streams. -/
theorem readAll_congr (hgood : ∀ is ∈ streams, is.failed = false)
    (hgood' : ∀ is ∈ streams', is.failed = false)
    (hperm : (written (allLines streams)).Perm (written (allLines streams'))) :
    readAll streams list = .ok () list' ↔ readAll streams' list = .ok () list' := by
  rw [readAll_ok_iff, readAll_ok_iff, and_iff_right hgood, and_iff_right hgood']
  exact ⟨fun h ↦ h.congr hperm, fun h ↦ h.congr hperm.symm⟩

/-- The best student of a list that was read from several streams: the one with the highest grade on
all of their lines, and of those with this grade the one with the first name. There is none exactly
when all lines are blank. -/
theorem getMaxGradeStudent_iff (streams : List InputStream) (list : StudentList)
    (hread : readAll streams .empty = .ok () list) :
    (∀ best, list.getMaxGradeStudent = some best ↔
      Best (studentsOf (allLines streams)) best) ∧
    (list.getMaxGradeStudent = none ↔ ∀ line ∈ allLines streams, line = []) := by
  obtain ⟨-, hreads⟩ := readAll_ok_iff.mp hread
  obtain ⟨haccepts, hstudents⟩ := reads_iff.mp hreads
  have hsame : ∀ student, student ∈ list.students ↔ student ∈ studentsOf (allLines streams) :=
    fun student ↦ (hstudents student).trans (or_iff_right List.not_mem_nil)
  have hbest (best : List Char × ℤ) : list.getMaxGradeStudent = some best ↔
      Best (studentsOf (allLines streams)) best := by
    rw [getMaxGradeStudent_eq_some_iff]
    simp only [Best, hsame]
  refine ⟨hbest, ?_⟩
  constructor
  · intro hnone line hline
    refine (haccepts.valid line hline).resolve_right fun hvalid ↦ ?_
    obtain ⟨student, hstudent⟩ := Option.isSome_iff_exists.mp hvalid
    have hmem := (hsame student).mpr (mem_studentsOf.mpr ⟨line, hline, hstudent⟩)
    rw [getMaxGradeStudent_eq_none_iff] at hnone
    rw [hnone] at hmem
    cases hmem
  · intro hblank
    rw [getMaxGradeStudent_eq_none_iff, List.eq_nil_iff_forall_not_mem]
    intro student hmem
    obtain ⟨line, hline, hstudent⟩ := mem_studentsOf.mp ((hsame student).mp hmem)
    rw [hblank line hline, studentOf_nil] at hstudent
    cases hstudent

theorem getMaxGradeStudent_iff_tie : ∃ list, readAll tie .empty = .ok () list ∧
    (∀ best, list.getMaxGradeStudent = some best ↔ Best (studentsOf (allLines tie)) best) ∧
    (list.getMaxGradeStudent = none ↔ ∀ line ∈ allLines tie, line = []) :=
  ⟨_, readAll_tie, getMaxGradeStudent_iff _ _ readAll_tie⟩

end Streams

end StudStuff.Students
