import Mathlib.Data.List.Forall2
import StudStuff.NetLog.Config
import StudStuff.NetLog.Stream

/-!
# Filters one behind another

The output of `ProcessStream` is a text of lines, so it can be the input of another run. The lines
that come out of a row of runs are those of the first input whose address passes every filter
(`pipeline_accepted`). A filter passes what one of its entries passes, so a row of them is a
conjunction of disjunctions of subnets and ranges (`pipeline_meaning`). The order of the runs makes
no difference, and neither does repeating one (`pipeline_congr`).
-/

set_option autoImplicit false
set_option relaxedAutoImplicit false

namespace StudStuff.NetLog

open StudStuff.Lib

/-- Runs of `ProcessStream`, each of which reads what the one before has written. -/
def pipeline : List CompositeFilter → Text → Text
  | [], input => input
  | filter :: filters, input => pipeline filters (processStream input [] filter)

/-- The entries of a configuration that match an address, each with a filter of its own. -/
def matchesSome (configs : List FilterConfig) (ip : IPv4Address) : Bool :=
  configs.any fun cfg ↦ cfg.ownFilter.any fun own ↦ own.isMatch ip

section Lines

variable (filter filter' : IPv4Address → Bool) (input : Text)

theorem accepted_eq_terminated :
    accepted filter input = terminated '\n' ((lines input).filter (accepts filter)) :=
  rfl

/-- The accepted lines are the lines of what is written. -/
theorem lines_accepted : lines (accepted filter input) = (lines input).filter (accepts filter) := by
  rw [accepted_eq_terminated, lines, segments_terminated]
  intro line hline
  exact not_mem_segment (List.mem_filter.mp hline).1

/-- A line passes both of two filters. -/
theorem accepts_and (line : Text) : accepts (fun ip ↦ filter ip && filter' ip) line =
    (accepts filter' line && accepts filter line) := by
  rw [accepts, accepts, accepts]
  cases line.contains ' ' with
  | false => rfl
  | true =>
    cases IPv4Address.fromString (line.takeWhile (· != ' ')) with
    | none => rfl
    | some ip => exact Bool.and_comm (filter ip) (filter' ip)

/-- Two filters one behind another. -/
theorem accepted_accepted : accepted filter' (accepted filter input) =
    accepted (fun ip ↦ filter ip && filter' ip) input := by
  rw [accepted_eq_terminated, lines_accepted, List.filter_filter, accepted_eq_terminated]
  exact congrArg (terminated '\n') (List.filter_congr fun line _ ↦ (accepts_and _ _ line).symm)

end Lines

section Pipeline

variable {filters filters' : List CompositeFilter} {stages : List (List FilterConfig)}

/-- What comes out of a row of filters. The induction is on the filters. -/
theorem pipeline_accepted (hne : filters ≠ []) (input : Text) :
    pipeline filters input = accepted (fun ip ↦ filters.all fun filter ↦ filter.isMatch ip)
      input := by
  induction filters generalizing input with
  | nil => exact absurd rfl hne
  | cons filter filters ih =>
    rw [pipeline, processStream_eq, List.nil_append]
    cases filters with
    | nil =>
      simp only [pipeline, List.all_cons, List.all_nil, Bool.and_true]
    | cons next filters =>
      rw [ih (List.cons_ne_nil next filters), accepted_accepted]
      simp only [List.all_cons]

/-- Only the set of filters in a row matters. -/
theorem pipeline_congr (hne : filters ≠ []) (hmem : ∀ filter, filter ∈ filters ↔ filter ∈ filters')
    (input : Text) : pipeline filters input = pipeline filters' input := by
  have hne' : filters' ≠ [] := by
    obtain ⟨filter, hfilter⟩ := List.exists_mem_of_ne_nil filters hne
    exact List.ne_nil_of_mem ((hmem filter).mp hfilter)
  have hall (ip : IPv4Address) : (filters.all fun filter ↦ filter.isMatch ip) =
      filters'.all fun filter ↦ filter.isMatch ip := by
    rw [Bool.eq_iff_iff, List.all_eq_true, List.all_eq_true]
    exact forall_congr' fun filter ↦ imp_congr_left (hmem filter)
  rw [pipeline_accepted hne, pipeline_accepted hne']
  simp only [hall]

theorem isMatch_eq_matchesSome {configs : List FilterConfig} {filter : CompositeFilter}
    (hcreate : createFilter configs = .ok filter) (ip : IPv4Address) :
    filter.isMatch ip = matchesSome configs ip := by
  rw [Bool.eq_iff_iff, createFilter_isMatch hcreate, matchesSome, List.any_eq_true]
  refine exists_congr fun cfg ↦ and_congr_right fun _ ↦ ?_
  rw [Option.any_eq_true]

/-- A row of runs, each with a configuration of its own, writes the lines whose address is matched
by some entry of every configuration. -/
theorem pipeline_meaning
    (hcreate : List.Forall₂ (fun configs filter ↦ createFilter configs = .ok filter) stages filters)
    (hne : stages ≠ []) (input : Text) :
    pipeline filters input = accepted (fun ip ↦ stages.all fun configs ↦ matchesSome configs ip)
      input := by
  have hall (ip : IPv4Address) : (filters.all fun filter ↦ filter.isMatch ip) =
      stages.all fun configs ↦ matchesSome configs ip := by
    clear hne
    induction hcreate with
    | nil => rfl
    | cons hfirst _ ih => rw [List.all_cons, List.all_cons, isMatch_eq_matchesSome hfirst, ih]
  have hne' : filters ≠ [] := by
    rintro rfl
    cases hcreate
    exact hne rfl
  rw [pipeline_accepted hne']
  simp only [hall]

/-- Two runs whose subnets have addresses in common. -/
theorem pipeline_meaning_nested :
    pipeline [⟨[.subnet ⟨0x0A000000, 0xFF000000⟩]⟩, ⟨[.subnet ⟨0x0A010000, 0xFFFF0000⟩]⟩]
        "10.1.0.1 a\n10.2.0.1 b\n".toList =
      accepted (fun ip ↦ [[⟨"subnet".toList, "10.0.0.0/8".toList⟩],
        [⟨"subnet".toList, "10.1.0.0/16".toList⟩]].all fun configs ↦ matchesSome configs ip)
        "10.1.0.1 a\n10.2.0.1 b\n".toList :=
  pipeline_meaning (.cons (by rfl) (.cons (by rfl) .nil)) (List.cons_ne_nil _ _) _

end Pipeline

end StudStuff.NetLog
