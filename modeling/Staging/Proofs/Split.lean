import Staging.Proofs.Dependence
import Staging.Proofs.Run

/-!
# Splitting keeps the meaning

The two halves of a schedule, one after the other, are the steps of the schedule in another order.
For a schedule in order it is an order again: a step of the first half reads nothing that a step of
the second half writes, because the pass over the schedule would have put it into the second half
too. So running the halves is running the schedule (`Plan.ofSchedule_runsAs`), whatever the
machine holds before.
-/

namespace Staging

namespace Schedule

variable {schedule : Schedule} {depends roots : IdSet} {s : Step}

theorem mem_independent :
    s ∈ (schedule.split depends).independent ↔ s ∈ schedule ∧ s.output ∉ depends := by
  simp [split, ← Std.ExtTreeSet.contains_iff_mem]

theorem mem_dynamic :
    s ∈ (schedule.split depends).dynamic ↔ s ∈ schedule ∧ s.output ∈ depends := by
  simp [split]

/-- No step is lost or doubled. -/
theorem split_perm (schedule : Schedule) (depends : IdSet) :
    (schedule.split depends).steps.Perm schedule :=
  List.perm_append_comm.trans
    (List.filter_append_perm (fun s : Step => depends.contains s.output) schedule)

/-- No step of the first half reads a buffer that depends on the roots. -/
theorem operand_not_mem_dependents (hf : schedule.Forward)
    (hs : s ∈ (schedule.split (schedule.dependents roots)).independent) {x : BufferId}
    (hx : x ∈ s.operands) : x ∉ schedule.dependents roots := fun hd =>
  (mem_independent.mp hs).2 (output_mem_dependents hf (mem_independent.mp hs).1 hx hd)

/-- **The halves of a schedule in order are in order**, one after the other. -/
theorem Forward.split (hf : schedule.Forward) (roots : IdSet) :
    (schedule.split (schedule.dependents roots)).steps.Forward := by
  refine List.pairwise_append.mpr ⟨hf.filter _, hf.filter _, fun s hs t ht hread => ?_⟩
  exact operand_not_mem_dependents hf hs hread (mem_dynamic.mp ht).2

theorem WellOrdered.split (hw : schedule.WellOrdered) (roots : IdSet) :
    (schedule.split (schedule.dependents roots)).steps.WellOrdered where
  distinct := ((split_perm schedule _).map Step.output).nodup_iff.mpr hw.distinct
  separate s hs := hw.separate s ((split_perm schedule _).mem_iff.mp hs)
  forward := hw.forward.split roots

end Schedule

namespace Plan

variable {p : Plan} {schedule : Schedule} {roots : IdSet} {mask : DebugMask}

/-- A schedule without loads has a plan, which is its split by what depends on the roots. -/
theorem ofSchedule_eq_ok :
    ofSchedule schedule roots mask = .ok p ↔
      schedule.Pure ∧
        p = ⟨schedule.split (schedule.dependents roots), schedule.dependents roots, mask⟩ := by
  unfold ofSchedule
  rw [← Schedule.impurity?_eq_none]
  cases schedule.impurity? with
  | none => simp [eq_comm]
  | some i => simp

theorem steps_sublist (hp : ofSchedule schedule roots mask = .ok p) (phase : Phase) :
    (p.steps phase).Sublist schedule := by
  obtain ⟨-, rfl⟩ := ofSchedule_eq_ok.mp hp
  cases phase <;> exact List.filter_sublist

theorem steps_pure (hp : ofSchedule schedule roots mask = .ok p) (phase : Phase) :
    (p.steps phase).Pure :=
  fun s hs => (ofSchedule_eq_ok.mp hp).1 s ((steps_sublist hp phase).subset hs)

section Executing

variable {σ : Type} [Engine σ] {e : σ} {c : Counters}

/-- A static phase that stops early is the end of the execution. -/
theorem execute_of_stop {why : Stop} (h : (p.runPhase .static e c).stop = some why) :
    p.execute e c = ⟨p.runPhase .static e c, none⟩ := by
  rw [execute, h]
  rfl

/-- The dynamic phase follows a static phase that ends well. -/
theorem execute_of_none (h : (p.runPhase .static e c).stop = none) :
    p.execute e c = ⟨p.runPhase .static e c,
      some (p.runPhase .dynamic (p.runPhase .static e c).engine .zero)⟩ := by
  rw [execute, h]
  rfl

end Executing

/-- From every machine, the static phase and then the dynamic phase end well exactly when the
schedule does as it stands; then the buffers, the generator and what was counted are the same. -/
def RunsAs (p : Plan) (schedule : Schedule) : Prop :=
  ∀ (m : Machine) (c : Counters),
    let static := p.runPhase .static m c
    let dynamic := p.runPhase .dynamic static.engine static.counters
    let whole := Engine.run schedule m c
    (static.stop = none ∧ dynamic.stop = none ↔ whole.stop = none) ∧
      (whole.stop = none →
        dynamic.engine.store = whole.engine.store ∧
          dynamic.engine.generator = whole.engine.generator ∧
          dynamic.counters.kernels = whole.counters.kernels ∧
          dynamic.counters.ops = whole.counters.ops ∧
          dynamic.counters.mem = whole.counters.mem)

/-- **Splitting keeps the meaning.** A well-ordered schedule without loads has a plan for every set
of roots, and the plan runs as the schedule. -/
theorem ofSchedule_runsAs {schedule : Schedule} (hw : schedule.WellOrdered) (hp : schedule.Pure)
    (roots : IdSet) (mask : DebugMask) :
    ∃ p, ofSchedule schedule roots mask = .ok p ∧ p.RunsAs schedule := by
  refine ⟨_, ofSchedule_eq_ok.mpr ⟨hp, rfl⟩, fun m c => ?_⟩
  intro static dynamic whole
  let halves := schedule.split (schedule.dependents roots)
  have hperm : halves.steps.Perm schedule := Schedule.split_perm schedule _
  have hpure : halves.steps.Pure := fun s hs => hp s (hperm.mem_iff.mp hs)
  obtain ⟨hstop, hend⟩ := Machine.run_append halves.independent halves.dynamic m c
  -- both orders of the steps are well ordered, so either run can be replaced by the other
  have hforth : whole.stop = none → Engine.run halves.steps m c = whole :=
    Schedule.run_perm hw (hw.split roots) hp hperm.symm
  have hback : (Engine.run halves.steps m c).stop = none → whole = Engine.run halves.steps m c :=
    Schedule.run_perm (hw.split roots) hw hpure hperm
  refine ⟨⟨fun h => ?_, fun h => ?_⟩, fun h => ?_⟩
  · have hjoined := hstop.mpr h
    exact hback hjoined ▸ hjoined
  · exact hstop.mp (hforth h ▸ h)
  · obtain ⟨hengine, hcounters⟩ := hend (hstop.mp (hforth h ▸ h)).1
    have hmachine : dynamic.engine = whole.engine :=
      hengine.symm.trans (congrArg Outcome.engine (hforth h))
    have hcounts : dynamic.counters = whole.counters :=
      hcounters.symm.trans (congrArg Outcome.counters (hforth h))
    rw [hmachine, hcounts]
    exact ⟨rfl, rfl, rfl, rfl, rfl⟩

/-- Here a static step is moved across a dynamic one, and the output of a step is a root. -/
theorem ofSchedule_runsAs_moved :
    let x := BufferId.ofNat
    let schedule : Schedule := [
      ⟨.unary .neg, x 2, [x 1], [2]⟩, ⟨.binary .add, x 3, [x 0, x 2], [2]⟩,
      ⟨.fill 1, x 4, [], [2]⟩, ⟨.unary .exp, x 5, [x 2], [2]⟩, ⟨.matmul, x 6, [x 4, x 5, x 3], [2]⟩]
    schedule.WellOrdered ∧ schedule.Pure ∧
      ∃ p, ofSchedule schedule (.ofList [x 0, x 4]) {} = .ok p ∧ p.RunsAs schedule :=
  ⟨by decide, by decide, ofSchedule_runsAs (by decide) (by decide) _ _⟩

end Plan

end Staging
