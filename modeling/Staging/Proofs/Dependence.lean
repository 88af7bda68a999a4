import Staging.Proofs.Schedule

/-!
# One pass finds every dependence

The pass of `Schedule.dependents` keeps the roots, adds nothing but outputs of steps, and on a
schedule in order leaves no step behind that reads a member while its own output is none
(`Schedule.output_mem_dependents`). The last is why one pass is enough: what a step reads is not
written after it, so it was classified when the step was visited.

So on a schedule in order the pass finds the least set that is closed under the rule of dependence
(`Schedule.mem_dependents_iff`). In any order, the pass finds nothing else, and a step that reads a
root writes a member (`Schedule.output_mem_of_reads_root`), since the roots are members from the
start.
-/

namespace Staging.Schedule

variable {schedule : Schedule} {roots : IdSet} {s : Step} {x : BufferId}

theorem mem_visit :
    x ∈ visit roots s ↔ x ∈ roots ∨ x = s.output ∧ ∃ y ∈ s.operands, y ∈ roots := by
  unfold visit
  split
  next h =>
    have hread : ∃ y ∈ s.operands, y ∈ roots := by simpa using h
    rw [IdSet.mem_insert, or_comm]
    exact or_congr_right (and_iff_left hread).symm
  next h =>
    have hread : ¬ ∃ y ∈ s.operands, y ∈ roots := by simpa using h
    exact (or_iff_left fun hx => hread hx.2).symm

theorem dependents_cons (s : Step) (rest : Schedule) (roots : IdSet) :
    dependents (s :: rest) roots = rest.dependents (visit roots s) := rfl

/-- The pass keeps the roots. -/
theorem mem_dependents_of_root (hx : x ∈ roots) : x ∈ schedule.dependents roots := by
  induction schedule generalizing roots with
  | nil => exact hx
  | cons s rest ih => exact ih (mem_visit.mpr (.inl hx))

/-- A step that reads a root writes a member, wherever it stands. -/
theorem output_mem_of_reads_root (hs : s ∈ schedule) (hx : x ∈ s.operands) (hroot : x ∈ roots) :
    s.output ∈ schedule.dependents roots := by
  induction schedule generalizing roots with
  | nil => cases hs
  | cons t rest ih =>
    rw [dependents_cons]
    rcases List.mem_cons.mp hs with rfl | hs
    · exact mem_dependents_of_root (mem_visit.mpr (.inr ⟨rfl, x, hx, hroot⟩))
    · exact ih hs (mem_visit.mpr (.inl hroot))

/-- The pass adds nothing but outputs. -/
theorem root_of_mem_dependents (hx : x ∈ schedule.dependents roots) (hout : x ∉ schedule.outputs) :
    x ∈ roots := by
  induction schedule generalizing roots with
  | nil => exact hx
  | cons s rest ih =>
    have hrest := ih hx fun h => hout (List.mem_cons_of_mem _ h)
    rcases mem_visit.mp hrest with h | ⟨rfl, -⟩
    · exact h
    · exact absurd List.mem_cons_self hout

/-- **One pass is enough**: on a schedule in order, a step that reads a member writes one. -/
theorem output_mem_dependents (hf : schedule.Forward) (hs : s ∈ schedule) (hx : x ∈ s.operands)
    (hd : x ∈ schedule.dependents roots) : s.output ∈ schedule.dependents roots := by
  induction schedule generalizing roots with
  | nil => cases hs
  | cons t rest ih =>
    obtain ⟨hfirst, hrest⟩ := List.pairwise_cons.mp hf
    rw [dependents_cons] at hd ⊢
    rcases List.mem_cons.mp hs with rfl | hs
    · -- no later step writes `x`, so it was a member when `s` was visited or `s` writes it itself
      have hlate : x ∉ outputs rest := fun h => by
        obtain ⟨u, hu, rfl⟩ := List.mem_map.mp h
        exact hfirst u hu hx
      rcases mem_visit.mp (root_of_mem_dependents hd hlate) with h | ⟨rfl, -⟩
      · exact mem_dependents_of_root (mem_visit.mpr (.inr ⟨rfl, x, hx, h⟩))
      · exact hd
    · exact ih hrest hs hd

/-- What the pass finds in some of the steps does depend on the roots, if it starts from what does.
-/
theorem depends_of_mem_pass {rest : Schedule} {found : IdSet} (hrest : rest ⊆ schedule)
    (hfound : ∀ y ∈ found, Depends schedule roots y) (hx : x ∈ rest.dependents found) :
    Depends schedule roots x := by
  induction rest generalizing found with
  | nil => exact hfound x hx
  | cons s rest ih =>
    obtain ⟨hs, hrest⟩ := List.cons_subset.mp hrest
    refine ih hrest (fun y hy => ?_) hx
    rcases mem_visit.mp hy with hy | ⟨rfl, z, hz, hroot⟩
    · exact hfound y hy
    · exact .step hs hz (hfound z hroot)

/-- The pass finds nothing but dependence, in whatever order the steps are. -/
theorem depends_of_mem_dependents (hx : x ∈ schedule.dependents roots) :
    Depends schedule roots x :=
  depends_of_mem_pass (fun _ hs => hs) (fun _ hy => .root hy) hx

/-- **One pass finds exactly the dependence** on the roots, on a schedule in order. -/
theorem mem_dependents_iff (hf : schedule.Forward) :
    x ∈ schedule.dependents roots ↔ Depends schedule roots x := by
  refine ⟨depends_of_mem_dependents, fun h => ?_⟩
  induction h with
  | root hx => exact mem_dependents_of_root hx
  | step hs hx _ ih => exact output_mem_dependents hf hs hx ih

end Staging.Schedule
