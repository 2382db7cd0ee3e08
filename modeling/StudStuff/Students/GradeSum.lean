import Mathlib.Data.Rat.Cast.Defs
import StudStuff.Lib.Reduction
import StudStuff.Students.RoundTrip

/-!
# The sum of the grades

`GetAvgGrade` adds up the grades with `std::transform_reduce`, which may group and order them as it
likes, in an `int`. Where a partial sum is no `int`, the program has no defined behaviour.

`Read` accepts every grade that is an `int` and not negative, for any number of students. So the sum
is the sum of the grades, in every grouping, exactly when that is an `int`
(`gradeSum_exact_iff`).
-/

set_option autoImplicit false
set_option relaxedAutoImplicit false

namespace StudStuff.Students

open Lib

/-! ### The average -/

/-- The grades in the order of the names. -/
def StudentList.grades (list : StudentList) : List ℤ := list.students.map (·.2)

/-- A way in which `std::transform_reduce` may group and order the grades and its initial value. -/
def StudentList.Groups (list : StudentList) (reduction : Reduction) : Prop :=
  reduction.leaves.Perm (0 :: list.grades)

/-- The value that `std::transform_reduce` returns for the grades, if no partial sum overflows. -/
def gradeSum (reduction : Reduction) : Option ℤ := reduction.reduce (-2 ^ 31) (2 ^ 31 - 1)

/-- `GetAvgGrade`: the quotient that is rounded to a `double`. -/
def StudentList.getAvgGrade (list : StudentList) (reduction : Reduction) : Option ℚ :=
  if list.students = [] then some 0
  else (gradeSum reduction).map fun sum : ℤ ↦ (sum : ℚ) / list.students.length

/-- The lists that calls of `Read` can build, also of those that throw. -/
inductive Built : StudentList → Prop
  | empty : Built .empty
  | returns {list list' : StudentList} (is : InputStream) (h : Built list)
      (hread : StudentList.read is list = .ok () list') : Built list'
  | throws {list list' : StudentList} (is : InputStream) (what : String) (h : Built list)
      (hread : StudentList.read is list = .error what list') : Built list'

/-! ### Overflow -/

section Overflow

variable {list : StudentList} {reduction : Reduction}

/-- `Read` adds students with grades that are not negative, also when it throws. -/
theorem maintains_read (is : InputStream) :
    Maintains (fun list ↦ ∀ student ∈ list.students, IsStudent student) (StudentList.read is) := by
  intro list hvalid
  rw [StudentList.read]
  split_ifs
  · exact .throw hvalid
  · refine (readLoop_meets is.text list).mono ?_ ?_
    · exact fun _ _ hreads ↦ hreads.isStudent hvalid
    · rintro _ _ ⟨before, line, after, -, hreads, -⟩
      exact hreads.isStudent hvalid

theorem Built.isStudent (h : Built list) : ∀ student ∈ list.students, IsStudent student := by
  induction h with
  | empty => exact isStudent_empty
  | returns is _ hread ih => exact (maintains_read is _ ih).ok hread
  | throws is what _ hread ih => exact (maintains_read is _ ih).error hread

/-- The summands are not negative, and each of them is an `int`. -/
theorem Built.leaves (h : Built list) (hgroups : list.Groups reduction) :
    ∀ leaf ∈ reduction.leaves, 0 ≤ leaf ∧ leaf < 2 ^ 31 := by
  intro leaf hmem
  rcases List.mem_cons.mp (hgroups.mem_iff.mp hmem) with rfl | hgrade
  · decide
  · obtain ⟨student, hstudent, rfl⟩ := List.mem_map.mp hgrade
    exact (h.isStudent student hstudent).2

theorem sum_leaves (hgroups : list.Groups reduction) :
    reduction.leaves.sum = list.grades.sum := by
  rw [hgroups.sum_eq, List.sum_cons, zero_add]

/-- Where the sum is an `int`, it is what every grouping computes. -/
theorem Built.gradeSum_eq (h : Built list) (hgroups : list.Groups reduction)
    (hsum : list.grades.sum ≤ 2 ^ 31 - 1) : gradeSum reduction = some list.grades.sum := by
  rw [← sum_leaves hgroups] at hsum ⊢
  exact Reduction.reduce_eq_sum (by decide) (fun leaf hmem ↦ (h.leaves hgroups leaf hmem).1) hsum

/-- What a grouping computes is an `int`. -/
theorem Built.gradeSum_le (h : Built list) (hgroups : list.Groups reduction) {sum : ℤ}
    (hsum : gradeSum reduction = some sum) : sum ≤ 2 ^ 31 - 1 := by
  have hleaves : ∀ leaf ∈ reduction.leaves, -2 ^ 31 ≤ leaf ∧ leaf ≤ 2 ^ 31 - 1 := by
    intro leaf hmem
    have hint := h.leaves hgroups leaf hmem
    omega
  exact (Reduction.within_of_reduce hleaves hsum).2

/-- No partial sum overflows, and the sum is the sum of the grades, exactly when that is an `int`.
The grouping makes no difference. -/
theorem gradeSum_exact_iff (list : StudentList) (reduction : Reduction) (hbuilt : Built list)
    (hgroups : list.Groups reduction) :
    gradeSum reduction = some list.grades.sum ↔ list.grades.sum ≤ 2 ^ 31 - 1 := by
  constructor
  · exact hbuilt.gradeSum_le hgroups
  · exact hbuilt.gradeSum_eq hgroups

/-- The average of the grades, where their sum is an `int`. -/
theorem Built.getAvgGrade_eq (h : Built list) (hgroups : list.Groups reduction)
    (hsum : list.grades.sum ≤ 2 ^ 31 - 1) :
    list.getAvgGrade reduction = some ((list.grades.sum : ℚ) / list.students.length) := by
  rw [StudentList.getAvgGrade]
  split_ifs with hempty
  · rw [hempty, List.length_nil, Nat.cast_zero, div_zero]
  · rw [h.gradeSum_eq hgroups hsum, Option.map_some]

/-- The loop that adds up the grades in the order of the names. -/
theorem groups_ofList (list : StudentList) : list.Groups (Reduction.ofList 0 list.grades) := by
  rw [StudentList.Groups, Reduction.leaves_ofList]

/-- A text with the lines of two students builds a list of both. -/
theorem built_two {text line line' : List Char} {grade grade' : ℤ}
    (hlines : segments '\n' text = [line, line']) (hline : studentOf line = some (['a'], grade))
    (hline' : studentOf line' = some (['b'], grade')) :
    Built ((StudentList.empty.added ['a'] grade).added ['b'] grade') := by
  have hfirst : ¬StudentList.empty.data.Has ['a'] := by
    rintro ⟨student, hmem, -⟩
    cases hmem
  have hsecond : ¬(StudentList.empty.added ['a'] grade).data.Has ['b'] := by
    rintro ⟨student, hmem, hname⟩
    rcases (mem_added hfirst).mp hmem with rfl | hold
    · cases hname
    · cases hold
  have hreads : Reads .empty (segments '\n' text)
      ((StudentList.empty.added ['a'] grade).added ['b'] grade') := by
    rw [hlines]
    exact .student hline hfirst (.student hline' hsecond (.nil _))
  exact .returns ⟨false, text⟩ .empty (readLoop_of_reads hreads)

/-- Two students with small grades. -/
def smallGrades : List Char := ['a', ' ', '1', '\n', 'b', ' ', '2']

theorem built_smallGrades : Built ((StudentList.empty.added ['a'] 1).added ['b'] 2) := by
  have hlines : segments '\n' smallGrades = [['a', ' ', '1'], ['b', ' ', '2']] := rfl
  exact built_two hlines rfl rfl

theorem gradeSum_exact_iff_smallGrades : gradeSum (.ofList 0 [1, 2]) = some 3 ↔
    (3 : ℤ) ≤ 2 ^ 31 - 1 :=
  gradeSum_exact_iff ((StudentList.empty.added ['a'] 1).added ['b'] 2) (.ofList 0 [1, 2])
    built_smallGrades (groups_ofList _)

/-- The largest `int`, and one more. -/
def largeGrades : List Char :=
  ['a', ' ', '2', '1', '4', '7', '4', '8', '3', '6', '4', '7', '\n', 'b', ' ', '1']

theorem built_largeGrades : Built ((StudentList.empty.added ['a'] 2147483647).added ['b'] 1) := by
  have hlines : segments '\n' largeGrades =
    [['a', ' ', '2', '1', '4', '7', '4', '8', '3', '6', '4', '7'], ['b', ' ', '1']] := rfl
  exact built_two hlines rfl rfl

/-- The grades of two students overflow. -/
theorem largeGrades_breaks_sum : ¬∀ (list : StudentList) (reduction : Reduction), Built list →
    list.Groups reduction → gradeSum reduction = some list.grades.sum := by
  intro hall
  cases hall _ _ built_largeGrades (groups_ofList _)

end Overflow

end StudStuff.Students
