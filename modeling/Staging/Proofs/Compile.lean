import Staging.Proofs.Classification

/-!
# When a graph has a plan

A graph is compiled in two checks: the outputs have to be nodes, and no step of their schedule may
be a load. The second check reads the schedule from its start, so it reports the first load
(`Schedule.impurity?_eq_some`); and because the schedule holds what the outputs need and nothing
else, it fails exactly when they need a load (`Graph.Scheduled.pure_iff`). So there is a plan unless
one of the outputs is unknown or a load is needed, whatever else is in the graph
(`Graph.Built.compile_exact`).
-/

namespace Staging

/-! ## The first load of a schedule -/

namespace Schedule

variable {schedule rest : Schedule} {s : Step} {i : Impurity}

/-- The report is about the first load: where it stands, what it writes, and which load it is. -/
structure FirstLoad (schedule : Schedule) (i : Impurity) : Prop where
  step : ∃ s, schedule[i.position]? = some s ∧ s.output = i.output ∧ s.op = .load i.op
  before : Pure (schedule.take i.position)

/-- A load at the start is the first one. -/
theorem firstLoad_cons_load {op : LoadOp} (hop : s.op = .load op) {n : Nat} {x : BufferId}
    {op' : LoadOp} : FirstLoad (s :: rest) ⟨n, x, op'⟩ ↔ n = 0 ∧ x = s.output ∧ op' = op := by
  constructor
  · rintro ⟨⟨t, ht, rfl, htop⟩, hbefore⟩
    cases n with
    | zero =>
      cases ht
      exact ⟨rfl, rfl, Op.load.inj (htop.symm.trans hop)⟩
    | succ n =>
      have hpure : s.op.isLoad = false := hbefore s List.mem_cons_self
      rw [hop] at hpure
      cases hpure
  · rintro ⟨rfl, rfl, rfl⟩
    exact ⟨⟨s, rfl, rfl, hop⟩, fun t ht => absurd ht List.not_mem_nil⟩

/-- Behind a step that is no load, the first load is that of the rest. -/
theorem firstLoad_cons_pure (hs : s.op.isLoad = false) {n : Nat} {x : BufferId} {op : LoadOp} :
    FirstLoad (s :: rest) ⟨n, x, op⟩ ↔ ∃ k, n = k + 1 ∧ rest.FirstLoad ⟨k, x, op⟩ := by
  constructor
  · rintro ⟨⟨t, ht, hout, htop⟩, hbefore⟩
    cases n with
    | zero =>
      cases ht
      rw [htop] at hs
      cases hs
    | succ k => exact ⟨k, rfl, ⟨t, ht, hout, htop⟩, (pure_cons.mp hbefore).2⟩
  · rintro ⟨k, rfl, ⟨t, ht, hout, htop⟩, hbefore⟩
    exact ⟨⟨t, ht, hout, htop⟩, pure_cons.mpr ⟨hs, hbefore⟩⟩

theorem impurityFrom_eq_some (position : Nat) :
    schedule.impurityFrom position = some i ↔
      ∃ n, i.position = position + n ∧ schedule.FirstLoad ⟨n, i.output, i.op⟩ := by
  induction schedule generalizing position with
  | nil =>
    refine iff_of_false (fun h => nomatch h) ?_
    rintro ⟨n, -, ⟨s, hs, -⟩, -⟩
    cases hs
  | cons s rest ih =>
    obtain ⟨found, x, op⟩ := i
    rw [impurityFrom]
    cases hop : s.op with
    | load op' =>
      simp only [firstLoad_cons_load hop, Option.some.injEq, Impurity.mk.injEq]
      constructor
      · rintro ⟨rfl, rfl, rfl⟩
        exact ⟨0, rfl, rfl, rfl, rfl⟩
      · rintro ⟨n, rfl, rfl, rfl, rfl⟩
        exact ⟨rfl, rfl, rfl⟩
    | _ =>
      have hpure : s.op.isLoad = false := by rw [hop]; rfl
      simp only [firstLoad_cons_pure hpure, ih]
      constructor
      · rintro ⟨k, hk, h⟩
        exact ⟨k + 1, by omega, k, rfl, h⟩
      · rintro ⟨n, hn, k, rfl, h⟩
        exact ⟨k, by omega, h⟩

/-- What is reported is the first load. -/
theorem impurity?_eq_some : schedule.impurity? = some i ↔ schedule.FirstLoad i := by
  obtain ⟨position, x, op⟩ := i
  rw [impurity?, impurityFrom_eq_some]
  constructor
  · rintro ⟨n, rfl, h⟩
    rwa [Nat.zero_add]
  · exact fun h => ⟨position, (Nat.zero_add position).symm, h⟩

end Schedule

/-- A schedule has no plan when it has a load, and the first one is reported. -/
theorem Plan.ofSchedule_eq_error {schedule : Schedule} {roots : IdSet} {mask : DebugMask}
    {i : Impurity} : ofSchedule schedule roots mask = .error i ↔ schedule.FirstLoad i := by
  rw [← Schedule.impurity?_eq_some, ofSchedule]
  cases schedule.impurity? with
  | none => simp
  | some j => simp

/-! ## Compiling a graph -/

namespace Graph

variable {g : Graph} {outputs before rest : List BufferId} {mask : DebugMask} {schedule : Schedule}
  {x : BufferId} {i : Impurity}

/-- A load is among the nodes that some outputs need. -/
def NeedsLoad (g : Graph) (outputs : List BufferId) : Prop :=
  ∃ x op operands shape, g.Needed outputs x ∧ g.node? x = some (.apply (.load op) operands shape)

theorem not_needsLoad : ¬ g.NeedsLoad outputs ↔ g.LoadFree outputs := by
  constructor
  · intro hfree x hx s hs
    obtain ⟨rfl, hnode⟩ := step?_eq_some.mp hs
    cases hop : s.op with
    | load op => exact absurd ⟨s.output, op, s.operands, s.shape, hx, hop ▸ hnode⟩ hfree
    | _ => rfl
  · rintro hfree ⟨x, op, operands, shape, hx, hnode⟩
    have hstep : g.step? x = some ⟨.load op, x, operands, shape⟩ :=
      step?_eq_some.mpr ⟨rfl, hnode⟩
    cases hfree x hx _ hstep

/-- The schedule is without loads exactly when the outputs need none. -/
theorem Scheduled.pure_iff (h : g.Scheduled outputs schedule) :
    schedule.Pure ↔ g.LoadFree outputs := by
  refine ⟨fun hpure x hx s hs => ?_, h.pure_of_loadFree⟩
  obtain ⟨rfl, -⟩ := step?_eq_some.mp hs
  exact hpure s (h.mem_iff_step?.mpr ⟨hx, hs⟩)

/-- The outputs are looked up in their order, so the first unknown one is reported. -/
theorem mapM_node_unknown (hbefore : ∀ y ∈ before, (g.node? y).isSome) (hx : g.node? x = none) :
    (before ++ x :: rest).mapM g.node = .error (.unknownBuffer x) := by
  induction before with
  | nil =>
    have hnode : g.node x = .error (.unknownBuffer x) := by rw [node, hx]
    rw [List.nil_append, List.mapM_cons, hnode]
    rfl
  | cons y before ih =>
    obtain ⟨hy, hbefore⟩ := List.forall_mem_cons.mp hbefore
    obtain ⟨n, hn⟩ := Option.isSome_iff_exists.mp hy
    rw [List.cons_append, List.mapM_cons, node_eq_ok.mpr hn, ih hbefore]
    rfl

theorem compile_unknown (hbefore : ∀ y ∈ before, (g.node? y).isSome) (hx : g.node? x = none)
    (mask : DebugMask) :
    g.compile (before ++ x :: rest) mask = .error (.error (.graph (.unknownBuffer x))) := by
  rw [compile, Graph.schedule, mapM_node_unknown hbefore hx]
  rfl

/-- When there is a schedule, what is wrong with the graph is its first load. -/
theorem compile_eq_impure (hschedule : g.schedule outputs = .ok schedule) :
    g.compile outputs mask = .error (.error (.impure i)) ↔ schedule.FirstLoad i := by
  have hplan : Plan.ofSchedule schedule g.roots mask = .error i ↔ schedule.FirstLoad i :=
    Plan.ofSchedule_eq_error
  have hcompile : g.compile outputs mask =
      Result.ofExcept ((Plan.ofSchedule schedule g.roots mask).mapError .impure) := by
    rw [compile, hschedule]
    rfl
  rw [← hplan, hcompile]
  cases Plan.ofSchedule schedule g.roots mask with
  | error j => simp [Except.mapError, Result.ofExcept]
  | ok p => simp [Except.mapError, Result.ofExcept]

/-- **Compiling fails exactly when it should.** For every built graph, the first of the outputs that
is not a node is reported. If all are nodes, a load is reported exactly when one is needed for the
outputs, and then it is the first load of their schedule; otherwise there is a plan, and no load in
either of its halves. A load that the outputs do not need plays no part. -/
theorem Built.compile_exact (hg : g.Built) (outputs : List BufferId) (mask : DebugMask) :
    (∀ before x rest, outputs = before ++ x :: rest → (∀ y ∈ before, (g.node? y).isSome) →
      g.node? x = none → g.compile outputs mask = .error (.error (.graph (.unknownBuffer x)))) ∧
    ((∀ x ∈ outputs, (g.node? x).isSome) →
      ∃ schedule, g.schedule outputs = .ok schedule ∧
        ((∃ i, g.compile outputs mask = .error (.error (.impure i))) ↔ g.NeedsLoad outputs) ∧
        (∀ i, g.compile outputs mask = .error (.error (.impure i)) → schedule.FirstLoad i) ∧
        (¬ g.NeedsLoad outputs → ∃ p, g.compile outputs mask = .ok p ∧
          p.halves.independent.Pure ∧ p.halves.dynamic.Pure)) := by
  constructor
  · rintro before x rest rfl hbefore hx
    exact compile_unknown hbefore hx mask
  · intro hout
    obtain ⟨schedule, hschedule, h⟩ := hg.scheduled hout
    refine ⟨schedule, hschedule, ?_, fun i => (compile_eq_impure hschedule).mp, fun hfree => ?_⟩
    · calc (∃ i, g.compile outputs mask = .error (.error (.impure i)))
        _ ↔ ∃ i, schedule.impurity? = some i := exists_congr fun i =>
          (compile_eq_impure hschedule).trans Schedule.impurity?_eq_some.symm
        _ ↔ schedule.impurity? ≠ none := Option.ne_none_iff_exists'.symm
        _ ↔ ¬ schedule.Pure := not_congr Schedule.impurity?_eq_none
        _ ↔ ¬ g.LoadFree outputs := not_congr h.pure_iff
        _ ↔ g.NeedsLoad outputs := not_iff_comm.mp not_needsLoad
    · obtain ⟨p, hp⟩ := hg.compile_ok hout (not_needsLoad.mp hfree) mask
      obtain ⟨_, -, hplan⟩ := hg.scheduled_of_compile hp
      exact ⟨p, hp, Plan.steps_pure hplan .static, Plan.steps_pure hplan .dynamic⟩

/-- Two loads are needed for the last node but one, none for the node before them, and the last node
is a load that is not asked for. -/
theorem compile_exact_three_ways :
    let x := BufferId.ofNat
    let g := Graph.empty.after [.input "x" [2], .weight "w" [2] #[1, 2],
      .push "y" (.unary .neg) [x 1], .push "z" (.binary .add) [x 2, x 0],
      .pushShaped "r" (.load .random) [] [2], .pushShaped "s" (.load .source) [] [2],
      .push "u" (.binary .mul) [x 3, x 4], .push "v" (.binary .add) [x 5, x 6],
      .pushShaped "t" (.load .custom) [] [2]]
    g.Built ∧
      g.compile [x 3, x 12, x 7, x 11] {} = .error (.error (.graph (.unknownBuffer (x 12)))) ∧
      (∃ schedule i, g.schedule [x 3, x 7] = .ok schedule ∧
        g.compile [x 3, x 7] {} = .error (.error (.impure i)) ∧ schedule.FirstLoad i) ∧
      ∃ p, g.compile [x 3, x 1] {} = .ok p ∧
        p.halves.independent.Pure ∧ p.halves.dynamic.Pure := by
  intro x g
  have hg : g.Built := Built.empty.after _
  refine ⟨hg, ?_, ?_, ?_⟩
  · exact (hg.compile_exact [x 3, x 12, x 7, x 11] {}).1 [x 3] (x 12) [x 7, x 11] rfl
      (by decide +kernel) (by decide +kernel)
  · have hload : g.NeedsLoad [x 3, x 7] := by
      have hv : g.Needed [x 3, x 7] (x 7) := .output (by decide)
      exact ⟨x 5, .source, [], [2], .operand hv (by decide +kernel), by decide +kernel⟩
    obtain ⟨schedule, hschedule, hiff, hfirst, -⟩ :=
      (hg.compile_exact [x 3, x 7] {}).2 (by decide +kernel)
    obtain ⟨i, hi⟩ := hiff.mpr hload
    exact ⟨schedule, i, hschedule, hi, hfirst i hi⟩
  · have hfree : ¬ g.NeedsLoad [x 3, x 1] := by
      refine not_needsLoad.mpr fun y hy s hs => ?_
      have hmem : y ∈ [x 3, x 2, x 1, x 0] :=
        hy.mem_of_closed (by decide +kernel) (by decide +kernel)
      have hpure : ∀ y ∈ [x 3, x 2, x 1, x 0], ∀ s ∈ g.step? y, s.op.isLoad = false := by
        decide +kernel
      exact hpure y hmem s hs
    obtain ⟨_, _, _, _, hok⟩ := (hg.compile_exact [x 3, x 1] {}).2 (by decide +kernel)
    exact hok hfree

end Graph

end Staging
