import Staging.Proofs.Closure
import Staging.Proofs.Split

/-!
# The halves of a schedule

The halves of a schedule in order, one after the other, are its steps in an order that can be run
too (`Schedule.split_reorders`). A stable split alone would not give that: it is because the pass
has found every dependence that no step of the first half has to wait for the second.

Either half, taken as a schedule with the same roots, is its own plan (`Plan.halves_stable`), and
for this the steps may be in any order. A step of the first half changes nothing when the pass
visits it, since its output would be found otherwise. So the pass over the second half goes through
the same sets without it (`Schedule.dependents_dynamic`), and the pass over the first half never
leaves the roots (`Schedule.dependents_independent`).
-/

namespace Staging

namespace Schedule

variable {schedule : Schedule} {roots found depends : IdSet} {s : Step}

/-! ## The order of the steps -/

/-- **The split is a reordering.** For a schedule in order and all roots, the halves one after the
other hold the steps of the schedule, as often as it does; each half has them in its order, and has
those that write a buffer which depends on the roots or those that do not. No step of the first half
reads such a buffer, so none reads what the second half writes, and no step of the two halves reads
what is written after it. -/
theorem split_reorders (hf : schedule.Forward) (roots : IdSet) :
    let depends := schedule.dependents roots
    let halves := schedule.split depends
    (halves.independent ++ halves.dynamic).Perm schedule ∧
      (halves.independent.Sublist schedule ∧ ∀ s ∈ halves.independent, s.output ∉ depends) ∧
      (halves.dynamic.Sublist schedule ∧ ∀ s ∈ halves.dynamic, s.output ∈ depends) ∧
      (∀ s ∈ halves.independent, ∀ x ∈ s.operands,
        x ∉ depends ∧ x ∉ halves.dynamic.outputs) ∧
      (halves.independent ++ halves.dynamic).Forward := by
  intro depends halves
  have hwrites : ∀ s ∈ halves.dynamic, s.output ∈ depends := fun s hs => (mem_dynamic.mp hs).2
  refine ⟨split_perm schedule depends,
    ⟨List.filter_sublist, fun s hs => (mem_independent.mp hs).2⟩,
    ⟨List.filter_sublist, hwrites⟩, fun s hs x hx => ?_, hf.split roots⟩
  have hfree : x ∉ depends := operand_not_mem_dependents hf hs hx
  refine ⟨hfree, fun hmem => ?_⟩
  obtain ⟨t, ht, rfl⟩ := List.mem_map.mp hmem
  exact hfree (hwrites t ht)

/-- A chain of two dynamic steps around a buffer that is written twice, and steps of the first half
behind all of them. -/
theorem split_reorders_chain :
    let x := BufferId.ofNat
    let schedule : Schedule := [
      ⟨.unary .neg, x 2, [x 1], [2]⟩, ⟨.binary .add, x 3, [x 2, x 0], [2]⟩,
      ⟨.unary .exp, x 3, [x 3], [2]⟩, ⟨.unary .tanh, x 4, [x 3], [2]⟩, ⟨.fill 1, x 5, [], [2]⟩,
      ⟨.binary .mul, x 6, [x 5, x 2], [2]⟩, ⟨.unary .neg, x 6, [x 6], [2]⟩]
    let halves := schedule.split (schedule.dependents (.ofList [x 0]))
    schedule.Forward ∧
      halves.independent.outputs = [x 2, x 5, x 6, x 6] ∧ halves.dynamic.outputs = [x 3, x 3, x 4] ∧
      (halves.independent ++ halves.dynamic).Perm schedule ∧
      (halves.independent ++ halves.dynamic).Forward := by
  intro x schedule halves
  have hforward : schedule.Forward := by decide
  obtain ⟨hperm, -, -, -, horder⟩ := split_reorders hforward (.ofList [x 0])
  exact ⟨hforward, by decide +kernel, by decide +kernel, hperm, horder⟩

/-! ## The pass over one half -/

/-- A visit that does not find the output finds nothing. -/
theorem visit_of_output_not_mem (h : s.output ∉ visit found s) : visit found s = found := by
  refine Std.ExtTreeSet.ext_mem fun x => ⟨fun hx => ?_, fun hx => mem_visit.mpr (.inl hx)⟩
  rcases mem_visit.mp hx with hmem | ⟨rfl, -⟩
  · exact hmem
  · exact absurd hx h

/-- The pass finds the same if steps are left out whose outputs it does not find. -/
theorem dependents_filter {keep : Step → Bool}
    (h : ∀ s ∈ schedule, s.output ∈ schedule.dependents roots → keep s = true) :
    dependents (schedule.filter keep) roots = schedule.dependents roots := by
  induction schedule generalizing roots with
  | nil => rfl
  | cons s rest ih =>
    obtain ⟨hfirst, hrest⟩ := List.forall_mem_cons.mp h
    rw [dependents_cons] at hfirst hrest ⊢
    cases hkeep : keep s with
    | true =>
      rw [List.filter_cons_of_pos hkeep, dependents_cons]
      exact ih hrest
    | false =>
      -- what the visit finds is kept to the end, and the output of `s` is not there
      have hout : s.output ∉ visit roots s := fun hmem => by
        rw [hfirst (mem_dependents_of_root hmem)] at hkeep
        cases hkeep
      rw [visit_of_output_not_mem hout] at hrest ⊢
      rw [List.filter_cons_of_neg (by simp [hkeep])]
      exact ih hrest

/-- The pass over the second half finds what the pass over the schedule finds. -/
theorem dependents_dynamic (schedule : Schedule) (roots : IdSet) :
    (schedule.split (schedule.dependents roots)).dynamic.dependents roots =
      schedule.dependents roots :=
  dependents_filter fun _ _ hout => Std.ExtTreeSet.contains_iff_mem.mpr hout

/-- The pass over the first half finds nothing. -/
theorem dependents_independent (schedule : Schedule) (roots : IdSet) :
    (schedule.split (schedule.dependents roots)).independent.dependents roots = roots := by
  refine dependents_eq_self_iff.mpr fun s hs x hx hroot => ?_
  obtain ⟨hmem, hout⟩ := mem_independent.mp hs
  exact absurd (output_mem_of_reads_root hmem hx hroot) hout

theorem split_eq_dynamic (h : ∀ s ∈ schedule, s.output ∈ depends) :
    schedule.split depends = { independent := [], dynamic := schedule } := by
  simp only [split, Partition.mk.injEq, List.filter_eq_nil_iff, List.filter_eq_self]
  exact ⟨fun s hs => by simp [h s hs], fun s hs => by simp [h s hs]⟩

theorem split_eq_independent (h : ∀ s ∈ schedule, s.output ∉ depends) :
    schedule.split depends = { independent := schedule, dynamic := [] } := by
  simp only [split, Partition.mk.injEq, List.filter_eq_nil_iff, List.filter_eq_self]
  have hfalse : ∀ s ∈ schedule, depends.contains s.output = false := fun s hs =>
    Bool.eq_false_iff.mpr fun hmem => h s hs (Std.ExtTreeSet.contains_iff_mem.mp hmem)
  exact ⟨fun s hs => by simp [hfalse s hs], fun s hs => by simp [hfalse s hs]⟩

end Schedule

namespace Plan

variable {schedule : Schedule}

/-- **The halves of a plan are stable.** Every schedule without loads, in order or not, has a plan
for all roots. With the same roots, the plan of its dynamic half has the same dependence and is
dynamic as a whole, and the plan of its static half depends on the roots alone and is static as a
whole. -/
theorem halves_stable (hp : schedule.Pure) (roots : IdSet) (mask mask' : DebugMask) :
    ∃ p, ofSchedule schedule roots mask = .ok p ∧
      ofSchedule p.halves.dynamic roots mask' =
        .ok ⟨{ independent := [], dynamic := p.halves.dynamic }, p.depends, mask'⟩ ∧
      ofSchedule p.halves.independent roots mask' =
        .ok ⟨{ independent := p.halves.independent, dynamic := [] }, roots, mask'⟩ := by
  obtain ⟨p, hplan⟩ : ∃ p, ofSchedule schedule roots mask = .ok p :=
    ⟨_, ofSchedule_eq_ok.mpr ⟨hp, rfl⟩⟩
  refine ⟨p, hplan, ofSchedule_eq_ok.mpr ⟨steps_pure hplan .dynamic, ?_⟩,
    ofSchedule_eq_ok.mpr ⟨steps_pure hplan .static, ?_⟩⟩
  · obtain ⟨-, rfl⟩ := ofSchedule_eq_ok.mp hplan
    rw [Schedule.dependents_dynamic,
      Schedule.split_eq_dynamic fun s hs => (Schedule.mem_dynamic.mp hs).2]
  · obtain ⟨-, rfl⟩ := ofSchedule_eq_ok.mp hplan
    have hout : ∀ s ∈ (schedule.split (schedule.dependents roots)).independent,
        s.output ∉ roots := fun s hs hroot =>
      (Schedule.mem_independent.mp hs).2 (Schedule.mem_dependents_of_root hroot)
    rw [Schedule.dependents_independent, Schedule.split_eq_independent hout]

/-- A step that comes before the one whose output it reads, a root that is written by a step, and a
buffer that is written twice. -/
theorem halves_stable_out_of_order :
    let x := BufferId.ofNat
    let schedule : Schedule := [
      ⟨.unary .exp, x 3, [x 2], [1]⟩, ⟨.unary .neg, x 2, [x 0], [1]⟩, ⟨.fill 2, x 5, [], [1]⟩,
      ⟨.binary .add, x 4, [x 2, x 3], [1]⟩, ⟨.fill 1, x 2, [], [1]⟩]
    let roots := IdSet.ofList [x 0, x 5]
    schedule.Pure ∧ ∃ p, ofSchedule schedule roots {} = .ok p ∧
      p.halves.dynamic.outputs = [x 2, x 5, x 4, x 2] ∧ p.halves.independent.outputs = [x 3] ∧
      ofSchedule p.halves.dynamic roots {} =
        .ok ⟨{ independent := [], dynamic := p.halves.dynamic }, p.depends, {}⟩ ∧
      ofSchedule p.halves.independent roots {} =
        .ok ⟨{ independent := p.halves.independent, dynamic := [] }, roots, {}⟩ := by
  intro x schedule roots
  have hpure : schedule.Pure := by decide
  obtain ⟨p, hp, hdynamic, hindependent⟩ := halves_stable hpure roots {} {}
  refine ⟨hpure, p, hp, ?_, ?_, hdynamic, hindependent⟩
  · obtain ⟨-, rfl⟩ := ofSchedule_eq_ok.mp hp
    decide +kernel
  · obtain ⟨-, rfl⟩ := ofSchedule_eq_ok.mp hp
    decide +kernel

end Plan

end Staging
