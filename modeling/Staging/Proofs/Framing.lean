import Staging.Proofs.Isolation

/-!
# What a phase leaves alone

`Machine.ChangesOnly ids m m'` says that buffers of some ids may have been written on the way from
`m` to `m'`, that none was taken away, and that the generator was not used. It holds of a step
without a load and its output (`Machine.exec_changesOnly`), hence of a run and the outputs of its
steps, wherever the run stops (`Machine.runFrom_changesOnly`).

The halves of a plan are told apart by what a step writes and not by the step itself. So the outputs
of the static half lie outside of what depends on the roots and those of the dynamic half inside,
even where several steps write one buffer or a step writes a root, and either phase leaves alone
what belongs to the other (`Plan.phase_changesOnly`).
-/

namespace Staging

/-! ## Machines -/

namespace Machine

variable {ids ids' : BufferId → Prop} {m m₁ m' : Machine} {s : Step} {schedule : Schedule}

/-- From `m` to `m'`, only buffers of these ids were written, none was taken away, and the generator
stayed as it was. -/
structure ChangesOnly (ids : BufferId → Prop) (m m' : Machine) : Prop where
  frame : ∀ x, ¬ ids x → m'.read x = m.read x
  held : ∀ x, (m.read x).isSome → (m'.read x).isSome
  generator : m'.generator = m.generator

theorem ChangesOnly.refl (ids : BufferId → Prop) (m : Machine) : ChangesOnly ids m m :=
  ⟨fun _ _ => rfl, fun _ hx => hx, rfl⟩

theorem ChangesOnly.trans (h : ChangesOnly ids m m₁) (h' : ChangesOnly ids m₁ m') :
    ChangesOnly ids m m' where
  frame x hx := (h'.frame x hx).trans (h.frame x hx)
  held x hx := h'.held x (h.held x hx)
  generator := h'.generator.trans h.generator

theorem ChangesOnly.mono (h : ChangesOnly ids m m') (hids : ∀ x, ids x → ids' x) :
    ChangesOnly ids' m m' :=
  ⟨fun x hx => h.frame x fun hmem => hx (hids x hmem), h.held, h.generator⟩

/-- **One step** without a load, whether it fails or not, changes only its output. -/
theorem exec_changesOnly (hs : s.op.isLoad = false) {r : Result ExecError Cost}
    (h : (exec s).run m = (r, m')) : ChangesOnly (· = s.output) m m' := by
  cases r with
  | error why =>
    obtain rfl := exec_failed_pure hs h
    exact .refl _ m'
  | ok k =>
    obtain ⟨b, g, hout, rfl⟩ := exec_eq_ok.mp h
    obtain ⟨rfl, -⟩ := Step.gives_of_outcome hs hout
    refine ⟨fun x hx => ?_, fun x hx => ?_, rfl⟩
    · rw [read_insert, if_neg hx]
      rfl
    · rw [read_insert]
      split
      next => rfl
      next => exact hx

/-- **A run** without loads, whether it ends well or not, changes only the outputs of its steps. -/
theorem runFrom_changesOnly (hp : schedule.Pure) (m : Machine) (c : Counters) (n : Nat) :
    ChangesOnly (· ∈ schedule.outputs) m (Engine.runFrom schedule m c n).engine := by
  induction schedule generalizing m c n with
  | nil => exact .refl _ m
  | cons s rest ih =>
    obtain ⟨hs, hrest⟩ := Schedule.pure_cons.mp hp
    rcases h : (exec s).run m with ⟨r, m'⟩
    have hfirst : ChangesOnly (· ∈ Schedule.outputs (s :: rest)) m m' :=
      (exec_changesOnly hs h).mono fun x hx => hx ▸ List.mem_cons_self
    cases r with
    | error why =>
      rw [Engine.runFrom_cons_error h]
      exact hfirst
    | ok k =>
      rw [Engine.runFrom_cons_ok h]
      have hlater := ih hrest m' (c.record k) (n + 1)
      exact hfirst.trans (hlater.mono fun x hx => List.mem_cons_of_mem _ hx)

end Machine

/-! ## Plans -/

namespace Plan

variable {p : Plan} {schedule : Schedule} {roots : IdSet} {mask : DebugMask} {x : BufferId}

/-- Every dynamic step writes a buffer that depends on the roots. -/
theorem mem_depends_of_dynamic_output (hp : ofSchedule schedule roots mask = .ok p)
    (hx : x ∈ (p.steps .dynamic).outputs) : x ∈ p.depends := by
  obtain ⟨-, rfl⟩ := ofSchedule_eq_ok.mp hp
  obtain ⟨s, hs, rfl⟩ := List.mem_map.mp hx
  exact (Schedule.mem_dynamic.mp hs).2

/-- **Each phase keeps to its half.** Every schedule without loads, in order or not, has a plan for
every set of roots. On every machine, whether the phase ends well or stops early, the static phase
leaves every buffer alone that depends on the roots, and the dynamic phase leaves every other buffer
alone. Neither takes a buffer away or moves the generator, and each writes nothing but outputs of
the steps of its half. -/
theorem phase_changesOnly (hp : schedule.Pure) (roots : IdSet) (mask : DebugMask) :
    ∃ p, ofSchedule schedule roots mask = .ok p ∧ ∀ (m : Machine) (c : Counters),
      (∀ x ∈ p.depends, (p.runPhase .static m c).engine.read x = m.read x) ∧
      (∀ x, x ∉ p.depends → (p.runPhase .dynamic m c).engine.read x = m.read x) ∧
      ∀ phase, Machine.ChangesOnly (· ∈ (p.steps phase).outputs) m (p.runPhase phase m c).engine := by
  obtain ⟨p, hplan⟩ : ∃ p, ofSchedule schedule roots mask = .ok p :=
    ⟨_, ofSchedule_eq_ok.mpr ⟨hp, rfl⟩⟩
  refine ⟨p, hplan, fun m c => ?_⟩
  have hphase (phase : Phase) :
      Machine.ChangesOnly (· ∈ (p.steps phase).outputs) m (p.runPhase phase m c).engine :=
    Machine.runFrom_changesOnly (steps_pure hplan phase) m c 0
  refine ⟨fun x hx => ?_, fun x hx => ?_, hphase⟩
  · exact (hphase .static).frame x (static_output_not_mem hplan hx)
  · exact (hphase .dynamic).frame x fun hmem => hx (mem_depends_of_dynamic_output hplan hmem)

/-- A root that is written by a step without operands, a buffer that is written both from the input
and without it, and a step that reads it before. The dynamic phase stops at its last step; by then
it has written over the root and over the buffer, and has left the others alone. -/
theorem phase_changesOnly_stopped :
    let x := BufferId.ofNat
    let schedule : Schedule := [
      ⟨.unary .exp, x 3, [x 2], [1]⟩, ⟨.unary .neg, x 2, [x 0], [1]⟩, ⟨.fill 2, x 5, [], [1]⟩,
      ⟨.fill 1, x 2, [], [1]⟩, ⟨.binary .add, x 4, [x 2, x 9], [1]⟩]
    let m := ((Machine.new 0).put (x 0) ⟨[1], #[7]⟩).put (x 5) ⟨[2], #[8, 9]⟩
    schedule.Pure ∧ ∃ p, ofSchedule schedule (.ofList [x 0, x 5]) {} = .ok p ∧
      (p.runPhase .dynamic m .zero).stop ≠ none ∧
      (p.runPhase .dynamic m .zero).engine.read (x 5) = some ⟨[1], #[2]⟩ ∧
      (p.runPhase .dynamic m .zero).engine.read (x 2) = some ⟨[1], #[1]⟩ ∧
      (p.runPhase .dynamic m .zero).engine.read (x 3) = m.read (x 3) ∧
      (p.runPhase .static m .zero).engine.read (x 5) = m.read (x 5) := by
  intro x schedule m
  have hpure : schedule.Pure := by decide
  obtain ⟨p, hp, h⟩ := phase_changesOnly hpure (.ofList [x 0, x 5]) {}
  obtain ⟨hstatic, hdynamic, -⟩ := h m .zero
  have hplan := (ofSchedule_eq_ok.mp hp).2
  refine ⟨hpure, p, hp, ?_, ?_, ?_, hdynamic (x 3) ?_, hstatic (x 5) ?_⟩ <;> rw [hplan] <;>
    decide +kernel

end Plan

end Staging
