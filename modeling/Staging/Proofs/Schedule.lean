import Staging.Plan

/-!
# Schedules in order

A schedule is in order when no step reads what a later step writes (`Schedule.Forward`). It is well
ordered when moreover no step reads what it writes itself and no buffer is written twice
(`Schedule.WellOrdered`). Nothing in the program checks either; the theory of dependence asks for
the first and the theory of runs for the second.
-/

namespace Staging.Schedule

variable {schedule : Schedule} {s : Step}

/-- No step brings values in from outside. -/
def Pure (schedule : Schedule) : Prop := ∀ s ∈ schedule, s.op.isLoad = false

/-- No step reads what a later step writes. -/
def Forward (schedule : Schedule) : Prop := schedule.Pairwise fun s t => t.output ∉ s.operands

/-- No two steps write the same buffer, and no step reads what it or a later step writes. -/
structure WellOrdered (schedule : Schedule) : Prop where
  distinct : schedule.outputs.Nodup
  separate : ∀ s ∈ schedule, s.output ∉ s.operands
  forward : schedule.Forward

instance : Decidable schedule.Pure := inferInstanceAs (Decidable (∀ s ∈ schedule, _))

instance : Decidable schedule.Forward := inferInstanceAs (Decidable (List.Pairwise _ schedule))

instance : Decidable schedule.WellOrdered :=
  decidable_of_iff
    (schedule.outputs.Nodup ∧ (∀ s ∈ schedule, s.output ∉ s.operands) ∧ schedule.Forward)
    ⟨fun ⟨hd, hs, hf⟩ => ⟨hd, hs, hf⟩, fun ⟨hd, hs, hf⟩ => ⟨hd, hs, hf⟩⟩

/-- Leaving steps out keeps the order. -/
theorem WellOrdered.sublist {other : Schedule} (h : schedule.WellOrdered)
    (hsub : other.Sublist schedule) : other.WellOrdered where
  distinct := h.distinct.sublist (hsub.map Step.output)
  separate s hs := h.separate s (hsub.subset hs)
  forward := List.Pairwise.sublist hsub h.forward

theorem WellOrdered.tail (h : WellOrdered (s :: schedule)) : WellOrdered schedule :=
  h.sublist (List.sublist_cons_self s schedule)

/-- The first step writes what no other step writes. -/
theorem WellOrdered.output_fresh (h : WellOrdered (s :: schedule)) :
    s.output ∉ outputs schedule :=
  (List.nodup_cons.mp h.distinct).1

/-- The first step reads what no step writes. -/
theorem WellOrdered.operand_fresh (h : WellOrdered (s :: schedule)) {x : BufferId}
    (hx : x ∈ s.operands) : x ∉ outputs (s :: schedule) := by
  intro hmem
  rcases List.mem_cons.mp hmem with rfl | hmem
  · exact h.separate s List.mem_cons_self hx
  · obtain ⟨t, ht, rfl⟩ := List.mem_map.mp hmem
    exact (List.pairwise_cons.mp h.forward).1 t ht hx

theorem pure_cons : Pure (s :: schedule) ↔ s.op.isLoad = false ∧ Pure schedule :=
  List.forall_mem_cons

theorem impurityFrom_eq_none (position : Nat) :
    schedule.impurityFrom position = none ↔ schedule.Pure := by
  induction schedule generalizing position with
  | nil => exact iff_of_true rfl fun _ hs => absurd hs List.not_mem_nil
  | cons s rest ih =>
    rw [pure_cons, impurityFrom]
    cases s.op with
    | load op => exact iff_of_false (fun h => nomatch h) fun h => Bool.noConfusion h.1
    | _ => exact (ih (position + 1)).trans (and_iff_right rfl).symm

/-- There is nothing to report exactly when no step is a load. -/
theorem impurity?_eq_none : schedule.impurity? = none ↔ schedule.Pure :=
  impurityFrom_eq_none 0

end Staging.Schedule
