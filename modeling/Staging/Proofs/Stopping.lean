import Staging.Proofs.Safety
import Staging.Proofs.Split

/-!
# What a failure leaves behind

A run that stops early has executed the steps before the one that failed, and nothing else: the
engine is as these steps left it, and what was counted is their number and what they cost
(`Engine.StopsAt`). That the step which fails leaves no trace itself is a matter of the engine, and
for a machine it was shown of every step that ends in an error (`Machine.exec_error`). The error
names the step (`Machine.step_of_exec_error`).

For a plan this says at which position of which half an execution was cut (`Plan.execute_cut`).
Between the halves the counters start again, so a cut in the static half keeps what was counted
before the execution, and a cut in the dynamic half does not.

**What it does not establish.** A fault ends more than the run. What it leaves behind can not be
looked at, and nothing is said of it here.
-/

namespace Staging

/-! ## Costs -/

namespace Counters

/-- The number of steps of these costs, and what they cost together. -/
def total (costs : List Cost) : Counters where
  kernels := UInt64.ofNat costs.length
  ops := costs.foldr (fun k n => k.ops + n) 0
  mem := costs.foldr (fun k n => k.mem + n) 0
  time := costs.foldr (fun k n => k.time + n) 0

/-- Recording a step adds one kernel and what it costs. -/
theorem record_add_total (c : Counters) (k : Cost) (costs : List Cost) :
    c.record k + total costs = c + total (k :: costs) := by
  have hkernels : UInt64.ofNat (k :: costs).length = 1 + UInt64.ofNat costs.length := by
    rw [List.length_cons, Nat.add_comm, UInt64.ofNat_add]
    rfl
  simp only [add_eq, record, total, hkernels, List.foldr_cons, UInt64.add_assoc]

end Counters

/-! ## Runs of engines -/

namespace Engine

variable {σ : Type} [Engine σ] {schedule : Schedule} {e : σ} {c : Counters}

/-- Executing the steps one after the other leads from one state to another, at these costs. -/
inductive Executes : Schedule → σ → List Cost → σ → Prop where
  | nil {e : σ} : Executes [] e [] e
  | cons {s : Step} {rest : Schedule} {e e₁ e' : σ} {k : Cost} {costs : List Cost} :
      (exec s).run e = (.ok k, e₁) → Executes rest e₁ costs e' →
        Executes (s :: rest) e (k :: costs) e'

/-- The run was cut at position `i`, where step `s` failed in the state `before`. -/
structure StopsAt (schedule : Schedule) (e : σ) (c : Counters) (o : Outcome σ) (i : Nat) (s : Step)
    (before : σ) (why : Stop) : Prop where
  step : schedule[i]? = some s
  /-- The `i` steps before it were executed, and what they cost was counted. -/
  executed : ∃ costs, costs.length = i ∧ Executes (schedule.take i) e costs before ∧
    o.counters = c + .total costs
  /-- The step that failed left no trace. -/
  fails : (exec s).run before = (.error why, before)
  engine : o.engine = before

/-- A run that stops early was cut somewhere, if a step that fails in this way leaves no trace. -/
theorem runFrom_stopsAt {n : Nat} {why : Stop}
    (hkeeps : ∀ s (e e' : σ), (exec s).run e = (.error why, e') → e' = e)
    (h : (runFrom schedule e c n).stop = some why) :
    ∃ i s before, StopsAt schedule e c (runFrom schedule e c n) i s before why := by
  induction schedule generalizing e c n with
  | nil => cases h
  | cons s rest ih =>
    rcases hexec : (exec s).run e with ⟨why' | k, e₁⟩
    · rw [runFrom_cons_error hexec] at h ⊢
      cases h
      obtain rfl := hkeeps s e e₁ hexec
      exact ⟨0, s, e₁, rfl, ⟨[], rfl, .nil, (Counters.add_zero c).symm⟩, hexec, rfl⟩
    · rw [runFrom_cons_ok hexec] at h ⊢
      obtain ⟨i, t, before, hstep, ⟨costs, rfl, hrun, hcounters⟩, hfails, hengine⟩ := ih h
      refine ⟨_, t, before, hstep, ⟨k :: costs, rfl, .cons hexec hrun, ?_⟩, hfails, hengine⟩
      exact hcounters.trans (Counters.record_add_total c k costs)

/-- A run that ends well has executed all its steps. -/
theorem runFrom_executes {n : Nat} (h : (runFrom schedule e c n).stop = none) :
    ∃ costs, Executes schedule e costs (runFrom schedule e c n).engine := by
  induction schedule generalizing e c n with
  | nil => exact ⟨[], .nil⟩
  | cons s rest ih =>
    rcases hexec : (exec s).run e with ⟨why | k, e₁⟩
    · rw [runFrom_cons_error hexec] at h
      cases h
    · rw [runFrom_cons_ok hexec] at h ⊢
      obtain ⟨costs, hrun⟩ := ih h
      exact ⟨k :: costs, .cons hexec hrun⟩

end Engine

/-- An error of a machine names the step that failed. -/
theorem Machine.step_of_exec_error {s : Step} {m m' : Machine} {e : ExecError}
    (h : (Machine.exec s).run m = (.error (.error e), m')) : e.step = some s.output := by
  have hends := s.outcome_ends m.read m.generator
  rw [(exec_failed h).1] at hends
  exact hends

/-! ## Plans -/

namespace Plan

variable {p : Plan} {m : Machine} {c : Counters}

/-- A phase that ends in an error was cut at a step, which the error names. -/
theorem runPhase_stopsAt (phase : Phase) {e : ExecError}
    (h : (p.runPhase phase m c).stop = some (.error e)) :
    ∃ i s before, Engine.StopsAt (p.steps phase) m c (p.runPhase phase m c) i s before (.error e) ∧
      e.step = some s.output ∧
      (p.runPhase phase m c).engine.read s.output = before.read s.output := by
  obtain ⟨i, s, before, hcut⟩ := Engine.runFrom_stopsAt (fun _ _ _ => Machine.exec_error) h
  refine ⟨i, s, before, hcut, Machine.step_of_exec_error hcut.fails, ?_⟩
  exact congrArg (Machine.read · s.output) hcut.engine

/-- **A failure leaves exactly the executed prefix.** When executing a plan ends in an error, the
error names a phase and a step of its half. In the static phase, the engine is as the independent
steps before that one left it, no dynamic step was begun, and their costs were added to what was
counted before. In the dynamic phase, the engine is as all independent steps and then the dynamic
steps before that one left it, and the counters hold the costs of these dynamic steps alone. In
either case the buffer that the step writes is what it was before the step. -/
theorem execute_cut (p : Plan) (m : Machine) (c : Counters) {e : PhaseError}
    (h : (p.execute m c).failure? = some (.error e)) :
    let o := (p.execute m c).last
    (e.phase = .static ∧ (p.execute m c).dynamic = none ∧
      ∃ i s before, Engine.StopsAt p.halves.independent m c o i s before (.error e.error) ∧
        e.error.step = some s.output ∧ o.engine.read s.output = before.read s.output) ∨
    (e.phase = .dynamic ∧
      ∃ m₁ costs, Engine.Executes p.halves.independent m costs m₁ ∧
      ∃ j s before, Engine.StopsAt p.halves.dynamic m₁ .zero o j s before (.error e.error) ∧
        e.error.step = some s.output ∧ o.engine.read s.output = before.read s.output) := by
  intro o
  obtain ⟨why, (hstop : o.stop = some why), hwhy⟩ := Option.map_eq_some_iff.mp h
  cases why with
  | fault f => cases hwhy
  | error err =>
    cases hwhy
    cases hstatic : (p.runPhase .static m c).stop with
    | some why' =>
      have hx := execute_of_stop hstatic
      have ho : o = p.runPhase .static m c := congrArg Execution.last hx
      have hphase : (p.execute m c).phase = .static := by rw [hx]; rfl
      rw [ho]
      exact .inl ⟨hphase, by rw [hx], runPhase_stopsAt .static (ho ▸ hstop)⟩
    | none =>
      have hx := execute_of_none hstatic
      have ho : o = p.runPhase .dynamic (p.runPhase .static m c).engine .zero :=
        congrArg Execution.last hx
      have hphase : (p.execute m c).phase = .dynamic := by rw [hx]; rfl
      obtain ⟨costs, hrun⟩ := Engine.runFrom_executes hstatic
      rw [ho]
      exact .inr ⟨hphase, _, costs, hrun, runPhase_stopsAt .dynamic (ho ▸ hstop)⟩

/-- A static step that reads what is not held, and a dynamic step whose operands can not be repeated
to fill its shape, each after steps that were executed; something was counted before. -/
theorem execute_cut_in_either_phase :
    let x := BufferId.ofNat
    let static : Schedule := [⟨.fill 1, x 2, [], [2]⟩, ⟨.unary .neg, x 3, [x 2], [2]⟩,
      ⟨.binary .add, x 4, [x 3, x 9], [2]⟩]
    let dynamic : Schedule := [⟨.unary .exp, x 5, [x 0], [2]⟩, ⟨.binary .mul, x 6, [x 5, x 3], [3]⟩]
    let p : Plan := ⟨⟨static, dynamic⟩, .ofList [x 0, x 5, x 6], {}⟩
    let p' : Plan := ⟨⟨static.take 2, dynamic⟩, .ofList [x 0, x 5, x 6], {}⟩
    let m := (Machine.new 0).put (x 0) ⟨[2], #[3, 4]⟩
    let c : Counters := ⟨7, 8, 9, 0⟩
    let missing : ExecError := .ofStep (x 4) (.readsMissing (x 4) (x 9))
    let shapes : ExecError := .ofStep (x 6) (.noBroadcast [2] [3])
    (p.execute m c).failure? = some (.error ⟨.static, missing⟩) ∧
      (p'.execute m c).failure? = some (.error ⟨.dynamic, shapes⟩) ∧
      (∃ i s before, s.output = x 4 ∧
        Engine.StopsAt static m c (p.execute m c).last i s before (.error missing)) ∧
      ∃ m₁ costs j s before, s.output = x 6 ∧ Engine.Executes (static.take 2) m costs m₁ ∧
        Engine.StopsAt dynamic m₁ .zero (p'.execute m c).last j s before (.error shapes) := by
  intro x static dynamic p p' m c missing shapes
  have hp : (p.execute m c).failure? = some (.error ⟨.static, missing⟩) := by decide +kernel
  have hp' : (p'.execute m c).failure? = some (.error ⟨.dynamic, shapes⟩) := by decide +kernel
  refine ⟨hp, hp', ?_, ?_⟩
  · obtain ⟨-, -, i, s, before, hcut, hstep, -⟩ | ⟨hphase, -⟩ := execute_cut p m c hp
    · exact ⟨i, s, before, (Option.some.inj hstep).symm, hcut⟩
    · cases hphase
  · obtain ⟨hphase, -⟩ | ⟨-, m₁, costs, hrun, j, s, before, hcut, hstep, -⟩ := execute_cut p' m c hp'
    · cases hphase
    · exact ⟨m₁, costs, j, s, before, (Option.some.inj hstep).symm, hrun, hcut⟩

end Plan

end Staging
