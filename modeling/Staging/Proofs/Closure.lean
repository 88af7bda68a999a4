import Mathlib.Order.Bounds.Basic
import Staging.Proofs.Dependence

/-!
# The least closed set

A set of buffers is closed under a schedule when every step that reads a member writes one. What
depends on some roots is the least closed set that holds them (`Schedule.isLeast_depends`).

The pass of `Schedule.dependents` leaves a set as it is exactly when it is closed
(`Schedule.dependents_eq_self_iff`), and makes it larger otherwise. So the pass can be repeated
until nothing changes (`Schedule.saturate`), and in whatever order the steps are, this ends with the
least closed set (`Schedule.isLeast_saturate`). On a schedule in order the first pass ends with it
(`Schedule.dependents_closure`). Out of order it may not: a step that comes before the one whose
output it reads is visited too early.
-/

namespace Staging.Schedule

variable {schedule : Schedule} {roots found : IdSet} {s : Step} {x : BufferId}

/-! ## Closed sets -/

/-- Every step that reads a member writes one. -/
def Closed (schedule : Schedule) (set : Set BufferId) : Prop :=
  ∀ s ∈ schedule, ∀ x ∈ s.operands, x ∈ set → s.output ∈ set

/-- The closed sets that hold the roots. -/
def closedSets (schedule : Schedule) (roots : IdSet) : Set (Set BufferId) :=
  {set | (∀ x ∈ roots, x ∈ set) ∧ schedule.Closed set}

/-- **What depends on the roots** is the least closed set that holds them. -/
theorem isLeast_depends (schedule : Schedule) (roots : IdSet) :
    IsLeast (schedule.closedSets roots) {x | Depends schedule roots x} := by
  refine ⟨⟨fun x hx => Depends.root hx, fun s hs x hx hd => Depends.step hs hx hd⟩, ?_⟩
  rintro set ⟨hroots, hclosed⟩ x hx
  induction hx with
  | root hx => exact hroots _ hx
  | step hs hx _ ih => exact hclosed _ hs _ hx ih

/-- The pass leaves closed sets as they are, and no others. -/
theorem dependents_eq_self_iff :
    schedule.dependents found = found ↔ schedule.Closed {x | x ∈ found} := by
  constructor
  · intro hsame s hs x hx hfound
    have hout := output_mem_of_reads_root hs hx hfound
    rwa [hsame] at hout
  · intro hclosed
    refine Std.ExtTreeSet.ext_mem fun x => ⟨fun hx => ?_, mem_dependents_of_root⟩
    exact (isLeast_depends schedule found).2 ⟨fun _ hy => hy, hclosed⟩
      (depends_of_mem_dependents hx)

/-! ## Repeating the pass -/

/-- A visit leaves the set as it is or makes it larger. -/
theorem visit_eq_or_lt (found : IdSet) (s : Step) :
    visit found s = found ∨ found.size < (visit found s).size := by
  unfold visit
  split
  · by_cases hmem : s.output ∈ found
    · refine .inl (Std.ExtTreeSet.ext_mem fun x => ?_)
      rw [IdSet.mem_insert]
      exact or_iff_right_of_imp fun hx => hx ▸ hmem
    · right
      simp [Std.ExtTreeSet.size_insert, hmem]
  · exact .inl rfl

/-- A pass leaves the set as it is or makes it larger. -/
theorem dependents_eq_or_lt (schedule : Schedule) (found : IdSet) :
    schedule.dependents found = found ∨ found.size < (schedule.dependents found).size := by
  induction schedule generalizing found with
  | nil => exact .inl rfl
  | cons s rest ih =>
    rw [dependents_cons]
    rcases visit_eq_or_lt found s with hvisit | hvisit
    · rw [hvisit]
      exact ih found
    · rcases ih (visit found s) with hrest | hrest
      · rw [hrest]
        exact .inr hvisit
      · exact .inr (Nat.lt_trans hvisit hrest)

theorem dependents_eq_self_of_size (h : (schedule.dependents found).size = found.size) :
    schedule.dependents found = found :=
  (dependents_eq_or_lt schedule found).resolve_right fun hlt => Nat.ne_of_gt hlt h

/-- The outputs that were not found. -/
def missing (schedule : Schedule) (found : IdSet) : List BufferId :=
  schedule.outputs.filter (· ∉ found)

/-- A pass that changes the set finds an output that was missing. -/
theorem missing_dependents_lt (h : schedule.dependents found ≠ found) :
    (schedule.missing (schedule.dependents found)).length < (schedule.missing found).length := by
  -- what is missing after the pass was missing before it
  have hfilter : schedule.missing (schedule.dependents found) =
      (schedule.missing found).filter (· ∉ schedule.dependents found) := by
    rw [missing, missing, List.filter_filter]
    refine List.filter_congr fun x _ => ?_
    by_cases hx : x ∈ found
    · simp [hx, mem_dependents_of_root hx]
    · simp [hx]
  obtain ⟨x, hx, hnew⟩ : ∃ x ∈ schedule.dependents found, x ∉ found := by
    by_contra hnone
    push Not at hnone
    exact h (Std.ExtTreeSet.ext_mem fun x => ⟨hnone x, mem_dependents_of_root⟩)
  have hout : x ∈ schedule.outputs := by
    by_contra hout
    exact hnew (root_of_mem_dependents hx hout)
  rw [hfilter, List.length_filter_lt_length_iff_exists]
  exact ⟨x, List.mem_filter.mpr ⟨hout, decide_eq_true hnew⟩, by simpa using hx⟩

/-- Repeats the pass until it finds nothing new. -/
def saturate (schedule : Schedule) (found : IdSet) : IdSet :=
  if _h : (schedule.dependents found).size = found.size then schedule.dependents found
  else schedule.saturate (schedule.dependents found)
termination_by (schedule.missing found).length
decreasing_by exact missing_dependents_lt fun hsame => _h (by rw [hsame])

/-- Repeating the pass keeps the roots. -/
theorem mem_saturate_of_root (hx : x ∈ roots) : x ∈ schedule.saturate roots := by
  fun_induction saturate schedule roots with
  | case1 roots _ => exact mem_dependents_of_root hx
  | case2 roots _ ih => exact ih (mem_dependents_of_root hx)

/-- Nothing is left to be found when the pass has been repeated. -/
theorem closed_saturate (schedule : Schedule) (roots : IdSet) :
    schedule.Closed {x | x ∈ schedule.saturate roots} := by
  fun_induction saturate schedule roots with
  | case1 roots hsize =>
    have hsame := dependents_eq_self_of_size hsize
    rw [hsame]
    exact dependents_eq_self_iff.mp hsame
  | case2 roots _ ih => exact ih

/-- Repeating the pass finds nothing but dependence, if it starts from what does depend. -/
theorem depends_of_mem_saturate (hfound : ∀ y ∈ found, Depends schedule roots y)
    (hx : x ∈ schedule.saturate found) : Depends schedule roots x := by
  fun_induction saturate schedule found with
  | case1 found _ => exact depends_of_mem_pass (fun _ hs => hs) hfound hx
  | case2 found _ ih =>
    exact ih (fun y hy => depends_of_mem_pass (fun _ hs => hs) hfound hy) hx

/-- **Repeating the pass** ends with the least closed set that holds the roots, in whatever order
the steps are. -/
theorem isLeast_saturate (schedule : Schedule) (roots : IdSet) :
    IsLeast (schedule.closedSets roots) {x | x ∈ schedule.saturate roots} := by
  refine ⟨⟨fun x hx => mem_saturate_of_root hx, closed_saturate schedule roots⟩, ?_⟩
  intro set hset x hx
  exact (isLeast_depends schedule roots).2 hset
    (depends_of_mem_saturate (fun _ hy => .root hy) hx)

/-! ## One pass -/

/-- On a schedule in order, one pass ends with the least closed set that holds the roots. -/
theorem isLeast_dependents (hf : schedule.Forward) (roots : IdSet) :
    IsLeast (schedule.closedSets roots) {x | x ∈ schedule.dependents roots} := by
  refine ⟨⟨fun x hx => mem_dependents_of_root hx, ?_⟩, ?_⟩
  · exact fun s hs x hx hd => output_mem_dependents hf hs hx hd
  · intro set hset x hx
    exact (isLeast_depends schedule roots).2 hset (depends_of_mem_dependents hx)

/-- **One pass computes the closure.** For every schedule and all roots there is a least set that
holds the roots and is closed under the schedule. The pass keeps the roots and stays inside of this
set; where no step reads what a later step writes, the pass finds all of it, and so finds what
repeating the pass until nothing changes finds. -/
theorem dependents_closure (schedule : Schedule) (roots : IdSet) :
    ∃ least, IsLeast (schedule.closedSets roots) least ∧
      (∀ x ∈ roots, x ∈ schedule.dependents roots) ∧
      (∀ x ∈ schedule.dependents roots, x ∈ least) ∧
      (schedule.Forward →
        (∀ x, x ∈ schedule.dependents roots ↔ x ∈ least) ∧
          schedule.dependents roots = schedule.saturate roots) := by
  refine ⟨_, isLeast_depends schedule roots, fun x => mem_dependents_of_root,
    fun x => depends_of_mem_dependents, fun hf => ⟨fun x => mem_dependents_iff hf, ?_⟩⟩
  have hsets := (isLeast_dependents hf roots).unique (isLeast_saturate schedule roots)
  exact Std.ExtTreeSet.ext_mem fun x => Set.ext_iff.mp hsets x

/-- A buffer that is written twice and read by its second step, a buffer that is dynamic because of
it, and one that depends on nothing. -/
theorem dependents_closure_rewritten :
    let x := BufferId.ofNat
    let schedule : Schedule := [
      ⟨.unary .neg, x 2, [x 1], [2]⟩, ⟨.binary .add, x 2, [x 2, x 0], [2]⟩,
      ⟨.unary .exp, x 3, [x 2], [2]⟩, ⟨.fill 1, x 3, [], [2]⟩, ⟨.unary .neg, x 4, [x 1], [2]⟩]
    let roots := IdSet.ofList [x 0]
    schedule.Forward ∧ ∃ least, IsLeast (schedule.closedSets roots) least ∧
      x 3 ∈ least ∧ x 4 ∉ least ∧ schedule.dependents roots = schedule.saturate roots := by
  intro x schedule roots
  have hforward : schedule.Forward := by decide
  have hfound : x 3 ∈ schedule.dependents roots ∧ x 4 ∉ schedule.dependents roots := by
    decide +kernel
  obtain ⟨least, hleast, -, -, h⟩ := dependents_closure schedule roots
  obtain ⟨hmem, hsame⟩ := h hforward
  exact ⟨hforward, least, hleast, (hmem _).mp hfound.1, fun hx => hfound.2 ((hmem _).mpr hx), hsame⟩

-- out of order, a second pass finds more
example :
    let x := BufferId.ofNat
    let schedule : Schedule := [⟨.unary .exp, x 2, [x 1], [2]⟩, ⟨.unary .neg, x 1, [x 0], [2]⟩]
    let once := schedule.dependents (.ofList [x 0])
    x 2 ∉ once ∧ x 2 ∈ schedule.dependents once := by
  decide +kernel

end Staging.Schedule
