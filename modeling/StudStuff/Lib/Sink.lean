import Mathlib.Data.List.Infix
import Mathlib.Data.Nat.Notation

/-!
# Sinks that fail

A sink takes items until a call fails. The failing call may have taken some of its items, and from
then on the sink takes none. `outcomes` lists what the coming calls do: `none` is a success, and
`some count` a failure after so many items; all those beyond its end succeed.

`Wrote` says what calls have done together: a sink that failed has taken a prefix of the items that
it was given, one that did not fail has taken all of them.
-/

set_option autoImplicit false
set_option relaxedAutoImplicit false

namespace StudStuff.Lib

/-- What was written, whether a call has failed, and the outcomes of the calls to come. -/
structure Sink (α : Type) where
  written : List α
  failed : Bool
  outcomes : List (Option ℕ)
  deriving DecidableEq, Repr

variable {α : Type}

namespace Sink

/-- Write some items. -/
def put (sink : Sink α) (items : List α) : Sink α :=
  if sink.failed then sink
  else
    match sink.outcomes with
    | [] => { sink with written := sink.written ++ items }
    | none :: outcomes => ⟨sink.written ++ items, false, outcomes⟩
    | some count :: outcomes => ⟨sink.written ++ items.take count, true, outcomes⟩

/-- Write what is buffered elsewhere. It can fail, but there are no items. -/
def flush (sink : Sink α) : Sink α := sink.put []

/-- A sink that has not failed and never will. -/
def Good (sink : Sink α) : Prop := sink.failed = false ∧ ∀ outcome ∈ sink.outcomes, outcome = none

end Sink

/-- Calls have given these items to a sink. -/
structure Wrote (sink sink' : Sink α) (items : List α) : Prop where
  written : ∃ taken, taken <+: items ∧ sink'.written = sink.written ++ taken
  complete : sink'.failed = false → sink'.written = sink.written ++ items
  stopped : sink.failed = true → sink' = sink
  good : sink.Good → sink'.Good

section Wrote

variable {sink sink' sink'' : Sink α} {items items' : List α}

theorem Wrote.refl (sink : Sink α) : Wrote sink sink [] :=
  ⟨⟨[], List.prefix_refl [], (List.append_nil _).symm⟩, fun _ ↦ (List.append_nil _).symm,
    fun _ ↦ rfl, id⟩

/-- Calls one after another. After a failure the later ones do nothing. -/
theorem Wrote.trans (h : Wrote sink sink' items) (h' : Wrote sink' sink'' items') :
    Wrote sink sink'' (items ++ items') := by
  constructor
  · by_cases hfailed : sink'.failed = true
    · obtain ⟨taken, hprefix, hwritten⟩ := h.written
      rw [h'.stopped hfailed]
      exact ⟨taken, hprefix.trans (List.prefix_append items items'), hwritten⟩
    · obtain ⟨taken, hprefix, hwritten⟩ := h'.written
      refine ⟨items ++ taken, (List.prefix_append_right_inj items).mpr hprefix, ?_⟩
      rw [hwritten, h.complete (Bool.eq_false_iff.mpr hfailed), List.append_assoc]
  · intro hgood
    have hmiddle : sink'.failed = false := by
      by_contra hfailed
      rw [Bool.not_eq_false] at hfailed
      rw [h'.stopped hfailed, hfailed] at hgood
      cases hgood
    rw [h'.complete hgood, h.complete hmiddle, List.append_assoc]
  · intro hfailed
    have hsame := h.stopped hfailed
    rw [h'.stopped (hsame ▸ hfailed), hsame]
  · exact fun hgood ↦ h'.good (h.good hgood)

/-- One call. -/
theorem Wrote.put (sink : Sink α) (items : List α) : Wrote sink (sink.put items) items := by
  obtain ⟨written, failed, outcomes⟩ := sink
  cases failed with
  | true =>
    refine ⟨⟨[], List.nil_prefix, (List.append_nil _).symm⟩, ?_, fun _ ↦ rfl, ?_⟩
    · exact fun hfailed ↦ nomatch hfailed
    · exact fun hgood ↦ nomatch hgood.1
  | false =>
    match outcomes with
    | [] =>
      refine ⟨⟨items, List.prefix_refl items, rfl⟩, fun _ ↦ rfl, ?_, id⟩
      exact fun hfailed ↦ nomatch hfailed
    | none :: outcomes =>
      refine ⟨⟨items, List.prefix_refl items, rfl⟩, fun _ ↦ rfl, ?_, ?_⟩
      · exact fun hfailed ↦ nomatch hfailed
      · exact fun hgood ↦ ⟨rfl, (List.forall_mem_cons.mp hgood.2).2⟩
    | some count :: outcomes =>
      refine ⟨⟨items.take count, List.take_prefix count items, rfl⟩, ?_, ?_, ?_⟩
      · exact fun hfailed ↦ nomatch hfailed
      · exact fun hfailed ↦ nomatch hfailed
      · exact fun hgood ↦ nomatch (List.forall_mem_cons.mp hgood.2).1

theorem Wrote.flush (sink : Sink α) : Wrote sink sink.flush [] := .put sink []

end Wrote

end StudStuff.Lib
