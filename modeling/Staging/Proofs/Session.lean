import Staging.Graph.Compile
import Staging.Proofs.Representation
import Staging.Proofs.Split
import Staging.Proofs.Value

/-!
# Inference after inference

The static phase of a plan is run once. After it, inputs are stored and the dynamic phase is run,
any number of times, and a run may stop early and leave buffers of its steps behind (`Plan.Served`).
All of that changes buffers that depend on the roots only (`Plan.Served.read_eq`), so the static
half stays settled: the machine goes on to hold what running it would store (`Schedule.Settled`).
Where it is settled, solving the dynamic half is solving the schedule (`Plan.dynamic_solution_iff`),
and running the static half again changes nothing (`Plan.static_again`).

With the values of nodes this gives `Graph.Built.infer_as_fresh`: an inference ends as a run of the
whole schedule does on a new machine that is given the leaves and nothing else, so that no buffer
that an earlier inference left is ever read.
-/

namespace Staging

/-! ## Settled schedules -/

namespace Schedule

variable {schedule : Schedule} {m m' : Machine}

/-- The machine holds already what a run would store. -/
def Settled (schedule : Schedule) (m : Machine) : Prop := schedule.Solution m m

theorem Solution.settled (h : schedule.Solution m m') : schedule.Settled m' :=
  ⟨h.gives, fun _ _ => rfl, rfl⟩

/-- Whether a schedule is settled is a matter of the buffers that its steps read and write. -/
theorem Settled.congr (hout : ∀ s ∈ schedule, m'.read s.output = m.read s.output)
    (hread : ∀ s ∈ schedule, ∀ x ∈ s.operands, m'.read x = m.read x) (h : schedule.Settled m) :
    schedule.Settled m' := by
  refine ⟨fun s hs => ?_, fun _ _ => rfl, rfl⟩
  obtain ⟨b, k, hgives, hb⟩ := h.gives s hs
  exact ⟨b, k, hgives.congr fun x hx => (hread s hs x hx).symm, (hout s hs).trans hb⟩

/-- A first part that is settled has nothing to add. -/
theorem Settled.append_iff {first second : Schedule} (hw : WellOrdered (first ++ second))
    (h : first.Settled m) : Solution (first ++ second) m m' ↔ second.Solution m m' := by
  rw [solution_append_iff hw]
  constructor
  · rintro ⟨m₁, hfirst, hsecond⟩
    have heq : m₁ = m := hfirst.unique (hw.sublist (List.sublist_append_left first second)) h
    exact heq ▸ hsecond
  · exact fun hsecond => ⟨m, h, hsecond⟩

end Schedule

/-! ## Sessions -/

namespace Plan

variable {p : Plan} {schedule : Schedule} {roots : IdSet} {mask : DebugMask}
  {ids : BufferId → Prop} {m m' : Machine}

/-! ### Phases -/

/-- A phase that ends well ends in a solution of its half. -/
theorem solution_of_runPhase (hw : schedule.WellOrdered)
    (hp : ofSchedule schedule roots mask = .ok p) {phase : Phase} {c : Counters}
    (h : (p.runPhase phase m c).stop = none) :
    (p.steps phase).Solution m (p.runPhase phase m c).engine :=
  Schedule.solution_of_runFrom (hw.sublist (steps_sublist hp phase)) (steps_pure hp phase) h

/-- The machines that are reached from one by storing buffers for some ids and by running the
dynamic phase, where either may fail. -/
inductive Served (p : Plan) (ids : BufferId → Prop) (m : Machine) : Machine → Prop where
  | start : Served p ids m m
  | store {m₁ : Machine} {x : BufferId} (b : Buffer) :
      Served p ids m m₁ → ids x → Served p ids m ((Machine.insert x b).run m₁).2
  | infer {m₁ : Machine} (c : Counters) :
      Served p ids m m₁ → Served p ids m (p.runPhase .dynamic m₁ c).engine

/-- A session changes no buffer but those that depend on the roots. -/
theorem Served.read_eq (hp : ofSchedule schedule roots mask = .ok p)
    (hids : ∀ x, ids x → x ∈ p.depends) (h : p.Served ids m m') {x : BufferId}
    (hx : x ∉ p.depends) : m'.read x = m.read x := by
  obtain ⟨-, rfl⟩ := ofSchedule_eq_ok.mp hp
  induction h with
  | start => rfl
  | @store m₁ y b _ hy ih =>
    have hxy : x ≠ y := fun heq => hx (heq ▸ hids y hy)
    exact (Machine.read_insert_run m₁ b hxy).trans ih
  | @infer m₁ c _ ih =>
    refine (Machine.runFrom_frame _ m₁ c 0 fun hmem => ?_).trans ih
    obtain ⟨s, hs, rfl⟩ := List.mem_map.mp hmem
    exact hx (Schedule.mem_dynamic.mp hs).2

/-- **The static half stays settled** in every session that stores buffers for ids which depend on
the roots. -/
theorem Served.settled (hw : schedule.WellOrdered) (hp : ofSchedule schedule roots mask = .ok p)
    (hids : ∀ x, ids x → x ∈ p.depends) (h : p.Served ids m m')
    (hm : p.halves.independent.Settled m) : p.halves.independent.Settled m' := by
  -- the static half neither reads nor writes a buffer that depends on the roots
  have hread : ∀ x, x ∉ p.depends → m'.read x = m.read x := fun _ => h.read_eq hp hids
  obtain ⟨-, rfl⟩ := ofSchedule_eq_ok.mp hp
  refine hm.congr (fun s hs => hread _ (Schedule.mem_independent.mp hs).2) fun s hs x hx => ?_
  exact hread x (Schedule.operand_not_mem_dependents hw.forward hs hx)

/-- **Where the static half is settled, the dynamic half does all that is left to do.** -/
theorem dynamic_solution_iff (hw : schedule.WellOrdered)
    (hp : ofSchedule schedule roots mask = .ok p) (hm : p.halves.independent.Settled m) :
    p.halves.dynamic.Solution m m' ↔ schedule.Solution m m' := by
  obtain ⟨-, rfl⟩ := ofSchedule_eq_ok.mp hp
  rw [← hm.append_iff (hw.split roots)]
  exact ⟨.perm (Schedule.split_perm schedule _), .perm (Schedule.split_perm schedule _).symm⟩

/-- Where the schedule can be solved, so can its static half. -/
theorem runPhase_static_of_solution (hw : schedule.WellOrdered)
    (hp : ofSchedule schedule roots mask = .ok p) (h : schedule.Solution m m') (c : Counters) :
    (p.runPhase .static m c).stop = none := by
  have hordered := hw.sublist (steps_sublist hp .static)
  obtain ⟨-, rfl⟩ := ofSchedule_eq_ok.mp hp
  have hsteps := h.perm (Schedule.split_perm schedule (schedule.dependents roots)).symm
  obtain ⟨m₁, hstatic, -⟩ := (Schedule.solution_append_iff (hw.split roots)).mp hsteps
  exact congrArg Outcome.stop (Schedule.runFrom_of_solution hordered hstatic c 0)

theorem runPhase_dynamic_iff (hw : schedule.WellOrdered)
    (hp : ofSchedule schedule roots mask = .ok p) (hm : p.halves.independent.Settled m)
    (c : Counters) :
    (p.runPhase .dynamic m c).stop = none ↔ ∃ m', schedule.Solution m m' := by
  have hordered := hw.sublist (steps_sublist hp .dynamic)
  refine (Schedule.runFrom_iff_solution hordered (steps_pure hp .dynamic) c 0).trans ?_
  exact exists_congr fun m' => dynamic_solution_iff hw hp hm

/-- **The static phase may be run again at any time.** A well-ordered schedule without loads has a
plan for every set of roots. Once its static phase has ended well on a machine, buffers may be
stored for ids that depend on the roots and the dynamic phase be run any number of times, to a good
end or not: another run of the static phase ends well, and the machine holds the same buffers after
it as before it, for every id, with the same generator. -/
theorem static_again (hw : schedule.WellOrdered) (hp : schedule.Pure) (roots : IdSet)
    (mask : DebugMask) :
    ∃ p, ofSchedule schedule roots mask = .ok p ∧
      ∀ (m₀ : Machine) (c₀ : Counters), (p.runPhase .static m₀ c₀).stop = none →
      ∀ m, p.Served (· ∈ p.depends) (p.runPhase .static m₀ c₀).engine m →
      ∀ c : Counters,
        let again := p.runPhase .static m c
        again.stop = none ∧ (∀ x, again.engine.read x = m.read x) ∧
          again.engine.generator = m.generator := by
  obtain ⟨p, hplan⟩ : ∃ p, ofSchedule schedule roots mask = .ok p :=
    ⟨_, ofSchedule_eq_ok.mpr ⟨hp, rfl⟩⟩
  refine ⟨p, hplan, fun m₀ c₀ hstatic m hserved c => ?_⟩
  intro again
  have hfirst : p.halves.independent.Settled (p.runPhase .static m₀ c₀).engine :=
    (solution_of_runPhase hw hplan hstatic).settled
  have hsettled : p.halves.independent.Settled m := hserved.settled hw hplan (fun _ hx => hx) hfirst
  -- a settled half is its own solution, which a run reaches
  have hordered := hw.sublist (steps_sublist hplan .static)
  have hrun : again = _ := Schedule.runFrom_of_solution hordered hsettled c 0
  rw [hrun]
  exact ⟨rfl, fun _ => rfl, rfl⟩

/-- Between the two static phases, the dynamic phase ends well, an input of another size and a
buffer in place of a computed one are stored, and the dynamic phase fails. -/
theorem static_again_after_failure :
    let x := BufferId.ofNat
    let schedule : Schedule := [⟨.fill 2, x 1, [], [2]⟩, ⟨.binary .add, x 3, [x 0, x 1], [2]⟩,
      ⟨.unary .neg, x 2, [x 1], [2]⟩, ⟨.binary .mul, x 4, [x 3, x 2], [2]⟩]
    let m₀ := (Machine.new 0).put (x 0) ⟨[2], #[3, 4]⟩
    schedule.WellOrdered ∧ schedule.Pure ∧
      ∃ p, ofSchedule schedule (.ofList [x 0]) {} = .ok p ∧
        (p.runPhase .static m₀ .zero).stop = none ∧
        ∃ m, p.Served (· ∈ p.depends) (p.runPhase .static m₀ .zero).engine m ∧
          (p.runPhase .dynamic m .zero).stop ≠ none ∧
          (p.runPhase .static m .zero).stop = none ∧
          ∀ y, (p.runPhase .static m .zero).engine.read y = m.read y := by
  intro x schedule m₀
  have hw : schedule.WellOrdered := by decide
  have hpure : schedule.Pure := by decide
  obtain ⟨p, hp, h⟩ := static_again hw hpure (.ofList [x 0]) {}
  have hplan := (ofSchedule_eq_ok.mp hp).2
  have hstatic : (p.runPhase .static m₀ .zero).stop = none := by
    rw [hplan]
    decide +kernel
  have hdepends : x 0 ∈ p.depends ∧ x 3 ∈ p.depends := by
    rw [hplan]
    decide +kernel
  let m₁ := (p.runPhase .dynamic (p.runPhase .static m₀ .zero).engine .zero).engine
  let m₂ := (m₁.put (x 0) ⟨[3], #[5, 6, 7]⟩).put (x 3) ⟨[1], #[8]⟩
  have hserved : p.Served (· ∈ p.depends) (p.runPhase .static m₀ .zero).engine
      (p.runPhase .dynamic m₂ .zero).engine :=
    (((Served.start.infer .zero).store ⟨[3], #[5, 6, 7]⟩ hdepends.1).store ⟨[1], #[8]⟩
      hdepends.2).infer .zero
  obtain ⟨hstop, hread, -⟩ := h m₀ .zero hstatic _ hserved .zero
  refine ⟨hw, hpure, p, hp, hstatic, _, hserved, ?_, hstop, hread⟩
  simp only [m₂, m₁, hplan]
  decide +kernel

end Plan

/-! ## Inferences and fresh runs -/

/-- A new machine that is given the buffers which another one holds for the leaves of a graph. -/
def Machine.leaves (m : Machine) (g : Graph) (seed : UInt64) : Machine :=
  ⟨m.store.filter fun x _ => g.isLeaf x, .ofSeed seed⟩

theorem Machine.read_leaves (m : Machine) (g : Graph) (seed : UInt64) (x : BufferId) :
    (m.leaves g seed).read x = if g.isLeaf x then m.read x else none := by
  unfold leaves read Store.read
  rw [Std.ExtTreeMap.getElem?_filter']
  cases m.store[x]? <;> cases g.isLeaf x <;> rfl

namespace Graph

variable {g : Graph} {outputs : List BufferId} {mask : DebugMask} {p : Plan} {x : BufferId}

/-- An input of the graph. -/
def IsInput (g : Graph) (x : BufferId) : Prop := ∃ shape, g.node? x = some (.input shape)

/-- The inputs are roots. -/
theorem IsInput.mem_roots (hx : g.IsInput x) : x ∈ g.roots := by
  obtain ⟨shape, hx⟩ := hx
  exact Graph.mem_roots.mpr ⟨shape, mem_inputs.mpr (mem_numbered_of_node? hx)⟩

theorem compile_eq_ok :
    g.compile outputs mask = .ok p ↔
      ∃ schedule, g.schedule outputs = .ok schedule ∧
        Plan.ofSchedule schedule g.roots mask = .ok p := by
  unfold compile
  rw [bind_eq_ok]
  refine exists_congr fun schedule => and_congr Result.mapError_eq_ok ?_
  rw [Result.ofExcept_eq_ok]
  cases Plan.ofSchedule schedule g.roots mask <;> simp [Except.mapError]

/-- **Precompute once, infer forever.** Every built graph has a plan for all nodes as outputs that
need no load. Once its static phase has ended well on a machine, inputs may be stored and the
dynamic phase be run any number of times, to a good end or not: the next inference ends well exactly
when the whole schedule does on a new machine that holds the current leaves and nothing else. Then
every output is the same on both, and is held unless it is a leaf that was never stored. -/
theorem Built.infer_as_fresh (hg : g.Built) (hout : ∀ x ∈ outputs, (g.node? x).isSome)
    (hload : g.LoadFree outputs) (mask : DebugMask) :
    ∃ p schedule, g.compile outputs mask = .ok p ∧ g.schedule outputs = .ok schedule ∧
      ∀ (m₀ : Machine) (c₀ : Counters), (p.runPhase .static m₀ c₀).stop = none →
      ∀ m, p.Served g.IsInput (p.runPhase .static m₀ c₀).engine m →
      ∀ (seed : UInt64) (c c' : Counters),
        let inferred := p.runPhase .dynamic m c
        let fresh := Engine.run schedule (m.leaves g seed) c'
        (inferred.stop = none ↔ fresh.stop = none) ∧
          (inferred.stop = none → ∀ x ∈ outputs,
            inferred.engine.load x = fresh.engine.load x ∧
              ((g.step? x).isSome ∨ (m.read x).isSome → ∃ b, inferred.engine.load x = .ok b)) := by
  obtain ⟨schedule, hschedule, h⟩ := hg.scheduled hout
  have hpure := h.pure_of_loadFree hload
  obtain ⟨p, hp⟩ : ∃ p, Plan.ofSchedule schedule g.roots mask = .ok p :=
    ⟨_, Plan.ofSchedule_eq_ok.mpr ⟨hpure, rfl⟩⟩
  refine ⟨p, schedule, compile_eq_ok.mpr ⟨schedule, hschedule, hp⟩, hschedule, ?_⟩
  intro m₀ c₀ hstatic m hserved seed c c' inferred fresh
  have hids : ∀ x, g.IsInput x → x ∈ p.depends := fun x hx => by
    obtain ⟨-, rfl⟩ := Plan.ofSchedule_eq_ok.mp hp
    exact Schedule.mem_dependents_of_root hx.mem_roots
  have hsettled : p.halves.independent.Settled m :=
    hserved.settled h.ordered hp hids (Plan.solution_of_runPhase h.ordered hp hstatic).settled
  have hleaf : ∀ y, g.isLeaf y → m.read y = (m.leaves g seed).read y := fun y hy => by
    rw [Machine.read_leaves, if_pos hy]
  have hiff : inferred.stop = none ↔ fresh.stop = none :=
    calc inferred.stop = none
      _ ↔ ∃ m', schedule.Solution m m' := Plan.runPhase_dynamic_iff h.ordered hp hsettled c
      _ ↔ ∃ m', schedule.Solution (m.leaves g seed) m' :=
        h.exists_solution_congr hg hout hload hleaf
      _ ↔ fresh.stop = none := (Schedule.runFrom_iff_solution h.ordered hpure c' 0).symm
  refine ⟨hiff, fun hstop x hx => ?_⟩
  have hinferred : schedule.Solution m inferred.engine :=
    (Plan.dynamic_solution_iff h.ordered hp hsettled).mp
      (Plan.solution_of_runPhase h.ordered hp hstop)
  have hfresh := Schedule.solution_of_runFrom h.ordered hpure (hiff.mp hstop)
  constructor
  · exact Machine.load_congr (h.read_congr hg hout hload hleaf hinferred hfresh (.output hx))
  · intro hheld
    obtain ⟨b, hb⟩ := hinferred.exists_read <|
      hheld.imp_left fun hs => h.mem_outputs.mpr ⟨.output hx, hs⟩
    exact ⟨b, Machine.load_eq_ok.mpr hb⟩

/-- Between the static phase and the last inference, one inference is made with the input that was
there, and one with an input of another size, which can not be added to the weight. -/
theorem infer_as_fresh_after_failure :
    let x := BufferId.ofNat
    let g := Graph.empty.after [.input "x" [2], .weight "w" [2] #[1, 2],
      .push "y" (.unary .neg) [x 1], .push "z" (.binary .add) [x 0, x 2]]
    let m₀ := ((Machine.new 0).put (x 0) ⟨[2], #[3, 4]⟩).put (x 1) ⟨[2], #[1, 2]⟩
    g.Built ∧ (∀ y ∈ [x 3], (g.node? y).isSome) ∧ g.LoadFree [x 3] ∧
      ∃ p schedule, g.compile [x 3] {} = .ok p ∧ g.schedule [x 3] = .ok schedule ∧
        (p.runPhase .static m₀ .zero).stop = none ∧
        ∃ m, p.Served g.IsInput (p.runPhase .static m₀ .zero).engine m ∧
          m.read (x 0) = some ⟨[2], #[5, 6]⟩ ∧
          ((p.runPhase .dynamic m .zero).stop = none ↔
            (Engine.run schedule (m.leaves g 1) .zero).stop = none) := by
  intro x g m₀
  have hg : g.Built := Built.empty.after _
  have hout : ∀ y ∈ [x 3], (g.node? y).isSome := by decide +kernel
  have hneeded : ∀ y, g.Needed [x 3] y → y ∈ [x 0, x 1, x 2, x 3] :=
    fun y => Needed.mem_of_closed (by decide +kernel) (by decide +kernel)
  have hload : g.LoadFree [x 3] := by
    have hpure : ∀ y ∈ [x 0, x 1, x 2, x 3], ∀ s ∈ g.step? y, s.op.isLoad = false := by
      decide +kernel
    exact fun y hy s hs => hpure y (hneeded y hy) s hs
  obtain ⟨p, schedule, hcompile, hschedule, h⟩ := hg.infer_as_fresh hout hload {}
  have hstatic : (p.runPhase .static m₀ .zero).stop = none := by
    obtain ⟨schedule, hschedule, hp⟩ := compile_eq_ok.mp hcompile
    obtain ⟨_, hschedule', hs⟩ := hg.scheduled hout
    cases hschedule.symm.trans hschedule'
    have hvalue : ∀ y ∈ [x 0, x 1, x 2, x 3], (g.value m₀ y).isSome := by decide +kernel
    have hfit : ∀ y ∈ [x 0, x 1, x 2, x 3], ∀ s ∈ g.step? y, ¬ s.Overflows (g.value m₀) := by
      decide +kernel
    obtain ⟨m', hm⟩ := (hs.exists_solution_iff hg hout hload).mpr
      ⟨fun y hy _ => hvalue y (hneeded y hy), fun y hy s hs => hfit y (hneeded y hy) s hs⟩
    exact Plan.runPhase_static_of_solution hs.ordered hp hm .zero
  have hinput : g.IsInput (x 0) := ⟨[2], by decide +kernel⟩
  let m₁ := (p.runPhase .dynamic (p.runPhase .static m₀ .zero).engine .zero).engine
  let m₂ := (p.runPhase .dynamic (m₁.put (x 0) ⟨[3], #[5, 6, 7]⟩) .zero).engine
  have hserved : p.Served g.IsInput (p.runPhase .static m₀ .zero).engine
      (m₂.put (x 0) ⟨[2], #[5, 6]⟩) :=
    (((Plan.Served.start.infer .zero).store ⟨[3], #[5, 6, 7]⟩ hinput).infer .zero).store
      ⟨[2], #[5, 6]⟩ hinput
  refine ⟨hg, hout, hload, p, schedule, hcompile, hschedule, hstatic, _, hserved, ?_, ?_⟩
  · rw [Machine.put, Machine.read_insert, if_pos rfl]
  · exact (h m₀ .zero hstatic _ hserved 1 .zero .zero).1

end Graph

end Staging
