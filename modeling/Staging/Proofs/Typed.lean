import Staging.Proofs.Evaluation
import Staging.Proofs.Session

/-!
# Typed machines

A machine is typed when every buffer it holds fits its node (`Graph.Typed`). Where no declared shape
has an empty axis, no node has one (`Graph.Built.nonzero`), and every step of the graph follows the
rules of shapes (`Graph.Built.ready`). So a step keeps a machine typed (`Graph.Built.exec_typed`),
and so does a run, which holds all its outputs at the end (`Graph.Built.runFrom_typed`), and a plan
(`Graph.Built.execute_typed`). None of them ends in an error.
-/

namespace Staging

/-- Where no operand has an empty axis, the result has none. -/
theorem Op.Makes.nonzero {op : Op} {shapes : List Shape} {shape : Shape} (h : op.Makes shapes shape)
    (hne : op.arity ≠ 0) (hshapes : ∀ xs ∈ shapes, 0 ∉ xs) : 0 ∉ shape := by
  cases h with
  | given harity => exact absurd harity hne
  | unary => exact hshapes _ List.mem_cons_self
  | reduce => exact Shape.zero_not_mem_dropLast (hshapes _ List.mem_cons_self)
  | binary hjoint =>
    rcases (Shape.broadcast_cases hjoint).1 with rfl | rfl
    · exact hshapes _ List.mem_cons_self
    · exact hshapes _ (List.mem_cons_of_mem _ List.mem_cons_self)
  | matmul =>
    have hx := hshapes _ List.mem_cons_self
    have hy := hshapes _ (List.mem_cons_of_mem _ List.mem_cons_self)
    simp only [List.mem_cons, List.not_mem_nil, or_false, not_or] at hx hy ⊢
    exact ⟨hx.1, hy.2⟩

namespace Graph

variable {g : Graph} {x : BufferId} {op : Op} {operands outputs : List BufferId} {shape : Shape}
  {shapes : List Shape} {m m' : Machine} {s : Step} {schedule : Schedule} {p : Plan}
  {mask : DebugMask}

/-! ## Shapes of nodes -/

/-- No shape that was declared, which is that of a node without operands, has an empty axis. -/
def DeclaresNonzero (g : Graph) : Prop :=
  ∀ x node, g.node? x = some node → node.operands = [] → 0 ∉ node.shape

/-- Some node has 2^31 values or more. -/
def Large (g : Graph) : Prop := ∃ x shape, g.shape x = .ok shape ∧ 1 <<< 31 ≤ Shape.count shape

theorem small_or_large (h : g.shape x = .ok shape) : shape.count < 1 <<< 31 ∨ g.Large :=
  (Nat.lt_or_ge _ _).imp_right fun hle => ⟨x, shape, h, hle⟩

/-- The shape of a computed node is made by the rules. -/
theorem Built.makes (hg : g.Built) (hx : g.node? x = some (.apply op operands shape)) :
    ∃ shapes, g.Shaped operands shapes ∧ op.Makes shapes shape :=
  accepts_apply.mp (hg.accepts hx)

/-- No node has an empty axis. -/
theorem Built.nonzero (hg : g.Built) (hdecl : g.DeclaresNonzero) (x : BufferId) :
    ∀ shape, g.shape x = .ok shape → 0 ∉ shape := by
  induction x using hg.induction_on_operands with | step x ih => ?_
  intro shape hshape
  obtain ⟨n, hn, rfl⟩ := shape_eq_ok.mp hshape
  by_cases hnil : n.operands = []
  · exact hdecl x n hn hnil
  · cases n with
    | input shape => exact absurd rfl hnil
    | weight shape => exact absurd rfl hnil
    | apply op operands shape =>
      rw [operands_of_node? hn] at ih
      obtain ⟨shapes, hshapes, hmakes⟩ := hg.makes hn
      have harity : op.arity ≠ 0 := fun h => by
        have hlength := (hg.accepts hn).1
        exact hnil (List.length_eq_zero_iff.mp (hlength.trans h))
      refine hmakes.nonzero harity fun xs hxs => ?_
      obtain ⟨y, hy, hys⟩ := hshapes.operand_of_mem hxs
      exact ih y hy xs hys

/-! ## Typed machines -/

/-- Every buffer that is held fits its node. -/
def Typed (g : Graph) (m : Machine) : Prop :=
  ∀ x b, m.read x = some b → ∃ shape, g.shape x = .ok shape ∧ b.Fits shape

theorem Typed.put {b : Buffer} (hm : g.Typed m) (hx : g.shape x = .ok shape) (hb : b.Fits shape)
    (gen : Generator) : g.Typed ⟨m.store.insert x b, gen⟩ := by
  intro y c hc
  rw [Machine.read_insert] at hc
  split at hc
  next heq =>
    cases hc
    exact ⟨shape, heq ▸ hx, hb⟩
  next => exact hm y c hc

/-- The machine holds a buffer that fits the node. -/
def Holds (g : Graph) (m : Machine) (x : BufferId) : Prop :=
  ∃ shape b, g.shape x = .ok shape ∧ m.read x = some b ∧ b.Fits shape

/-- Operands that are held are so in the shapes of their nodes. -/
theorem Shaped.held (h : g.Shaped operands shapes) (hheld : ∀ x ∈ operands, g.Holds m x) :
    Step.Held m.read operands shapes := by
  induction h with
  | nil => exact .nil
  | cons hhead _ ih =>
    obtain ⟨⟨shape, b, hshape, hb, hfits⟩, hrest⟩ := List.forall_mem_cons.mp hheld
    cases hhead.symm.trans hshape
    exact .cons ⟨b, hb, hfits⟩ (ih hrest)

/-- A typed machine holds what fits. -/
theorem Typed.holds (hm : g.Typed m) (hx : (m.read x).isSome) : g.Holds m x := by
  obtain ⟨b, hb⟩ := Option.isSome_iff_exists.mp hx
  obtain ⟨shape, hshape, hfits⟩ := hm x b hb
  exact ⟨shape, b, hshape, hb, hfits⟩

/-- Buffers of the shapes of their nodes can be stored. -/
theorem Typed.insertAll {buffers : List (BufferId × Buffer)} (hm : g.Typed m)
    (h : ∀ e ∈ buffers, g.shape e.1 = .ok e.2.shape ∧ e.2.shape.size = .ok e.2.data.size) :
    ∃ m', m.insertAll buffers = .ok m' ∧ g.Typed m' ∧
      ∀ x, x ∈ buffers.map Prod.fst ∨ (m.read x).isSome → (m'.read x).isSome := by
  induction buffers generalizing m with
  | nil => exact ⟨m, rfl, hm, fun x hx => hx.resolve_left List.not_mem_nil⟩
  | cons e rest ih =>
    obtain ⟨x, b⟩ := e
    obtain ⟨⟨hshape, hsize⟩, hrest⟩ := List.forall_mem_cons.mp h
    have hput : g.Typed (m.put x b) :=
      hm.put hshape ⟨rfl, Shape.count_of_size hsize⟩ m.generator
    obtain ⟨m', hall, htyped, hheld⟩ := ih hput hrest
    have hinsert : (Machine.insert x b).exec m = .ok (m.put x b) :=
      Machine.insert_eq_ok.mpr ⟨hsize, rfl⟩
    refine ⟨m', ?_, htyped, fun y hy => hheld y ?_⟩
    · rw [Machine.insertAll, List.foldlM_cons]
      exact bind_eq_ok.mpr ⟨_, hinsert, hall⟩
    · rw [Machine.put, Machine.read_insert]
      by_cases hyx : y = x
      · exact .inr (by rw [if_pos hyx]; rfl)
      · rw [if_neg hyx]
        exact hy.imp_left fun hmem => (List.mem_cons.mp hmem).resolve_left hyx

/-- A step of the graph is ready as soon as its operands are held. -/
theorem Built.ready (hg : g.Built) (hdecl : g.DeclaresNonzero) (hs : g.step? s.output = some s)
    (hpure : s.op.isLoad = false) (hm : g.Typed m) (hheld : ∀ x ∈ s.operands, (m.read x).isSome) :
    ∃ shapes, s.Ready m.read shapes ∧ (s.Small shapes ∨ g.Large) := by
  have hnode := (step?_eq_some.mp hs).2
  obtain ⟨shapes, hshapes, hmakes⟩ := hg.makes hnode
  -- each of the shapes is that of a node
  have hnodes : ∀ xs ∈ s.shape :: shapes, ∃ x, g.shape x = .ok xs := by
    refine List.forall_mem_cons.mpr ⟨⟨s.output, shape_eq_ok.mpr ⟨_, hnode, rfl⟩⟩, fun xs hxs => ?_⟩
    obtain ⟨x, -, hx⟩ := hshapes.operand_of_mem hxs
    exact ⟨x, hx⟩
  have hoperands : Step.Held m.read s.operands shapes :=
    hshapes.held fun x hx => hm.holds (hheld x hx)
  refine ⟨shapes, ⟨hmakes, hpure, fun xs hxs => ?_, hoperands⟩, ?_⟩
  · obtain ⟨x, hx⟩ := hnodes xs hxs
    exact hg.nonzero hdecl x xs hx
  · by_cases hlarge : g.Large
    · exact .inr hlarge
    · refine .inl fun xs hxs => ?_
      obtain ⟨x, hx⟩ := hnodes xs hxs
      have hlt := (small_or_large hx).resolve_right hlarge
      exact Nat.lt_of_lt_of_le hlt s.op.headroom_bounds.1

/-! ## Runs -/

/-- **One step** of the graph has no error. It keeps a machine typed, and at a good end it has lost
no buffer. -/
theorem Built.exec_typed (hg : g.Built) (hdecl : g.DeclaresNonzero) (hs : g.step? s.output = some s)
    (hpure : s.op.isLoad = false) (hm : g.Typed m) (hheld : ∀ x ∈ s.operands, (m.read x).isSome)
    {r : Result ExecError Cost} (h : (Machine.exec s).run m = (r, m')) :
    g.Typed m' ∧ Ends (Failure.Overflow g.Large)
      (fun _ => ∀ x, x = s.output ∨ (m.read x).isSome → (m'.read x).isSome) r := by
  obtain ⟨shapes, hready, hsmall⟩ := hg.ready hdecl hs hpure hm hheld
  have hends := hready.outcome hsmall m.generator
  cases r with
  | error why =>
    rw [(Machine.exec_failed h).1] at hends
    obtain rfl := Machine.exec_failed_pure hpure h
    exact ⟨hm, hends⟩
  | ok k =>
    obtain ⟨b, gen, hout, rfl⟩ := Machine.exec_eq_ok.mp h
    rw [hout] at hends
    have hshape : g.shape s.output = .ok s.shape :=
      shape_eq_ok.mpr ⟨_, (step?_eq_some.mp hs).2, rfl⟩
    refine ⟨hm.put hshape hends gen, fun x hx => ?_⟩
    rw [Machine.read_insert]
    split
    next => rfl
    next hne => exact hx.resolve_left hne

/-- A run that keeps the machine typed, stops for large numbers only, and otherwise holds all
outputs and whatever was held before. -/
structure RunsTyped (g : Graph) (schedule : Schedule) (m : Machine) (o : Outcome Machine) :
    Prop where
  typed : g.Typed o.engine
  stop : ∀ why, o.stop = some why → why.Overflow g.Large
  held : o.stop = none → ∀ x, x ∈ schedule.outputs ∨ (m.read x).isSome → (o.engine.read x).isSome

/-- **A run** of steps of the graph in order, whose operands are written or held before, has no
error. -/
theorem Built.runFrom_typed (hg : g.Built) (hdecl : g.DeclaresNonzero) (hw : schedule.WellOrdered)
    (hpure : schedule.Pure) (hsteps : ∀ s ∈ schedule, g.step? s.output = some s) (hm : g.Typed m)
    (hheld : ∀ s ∈ schedule, ∀ x ∈ s.operands, x ∈ schedule.outputs ∨ (m.read x).isSome)
    (c : Counters) (n : Nat) : g.RunsTyped schedule m (Engine.runFrom schedule m c n) := by
  induction schedule generalizing m c n with
  | nil => exact ⟨hm, fun _ h => (nomatch h), fun _ x hx => hx.resolve_left List.not_mem_nil⟩
  | cons s rest ih =>
    obtain ⟨hpures, hpurerest⟩ := Schedule.pure_cons.mp hpure
    obtain ⟨hstep, hsteps⟩ := List.forall_mem_cons.mp hsteps
    obtain ⟨hheads, hheldrest⟩ := List.forall_mem_cons.mp hheld
    -- no step writes what the first one reads, so that it is held already
    have hread : ∀ x ∈ s.operands, (m.read x).isSome :=
      fun x hx => (hheads x hx).resolve_left (hw.operand_fresh hx)
    rcases hexec : (Machine.exec s).run m with ⟨r, m₁⟩
    obtain ⟨htyped, hends⟩ := hg.exec_typed hdecl hstep hpures hm hread hexec
    cases r with
    | error why =>
      rw [Engine.runFrom_cons_error hexec]
      refine ⟨htyped, fun why' h => ?_, fun h => nomatch h⟩
      cases h
      exact hends
    | ok k =>
      rw [Engine.runFrom_cons_ok hexec]
      -- after the step, what it wrote is held
      have hmem : ∀ x, x ∈ Schedule.outputs (s :: rest) ∨ (m.read x).isSome →
          x ∈ Schedule.outputs rest ∨ (m₁.read x).isSome := by
        rintro x (hx | hx)
        · rcases List.mem_cons.mp hx with hx | hx
          · exact .inr (hends x (.inl hx))
          · exact .inl hx
        · exact .inr (hends x (.inr hx))
      have hrun := ih hw.tail hpurerest hsteps htyped
        (fun t ht x hx => hmem x (hheldrest t ht x hx)) (c.record k) (n + 1)
      exact ⟨hrun.typed, hrun.stop, fun hstop x hx => hrun.held hstop x (hmem x hx)⟩

/-! ## Both halves -/

theorem isLeaf_cases (hx : g.isLeaf x) :
    g.IsInput x ∨ ∃ shape, g.node? x = some (.weight shape) := by
  unfold isLeaf at hx
  split at hx
  next shape h => exact .inl ⟨shape, h⟩
  next shape h => exact .inr ⟨shape, h⟩
  next => cases hx

namespace Scheduled

/-- What is needed is a leaf or computed. -/
theorem leaf_or_output (hg : g.Built) (hout : ∀ x ∈ outputs, (g.node? x).isSome)
    (h : g.Scheduled outputs schedule) (hx : g.Needed outputs x) :
    g.isLeaf x ∨ x ∈ schedule.outputs := by
  cases hs : g.step? x with
  | none => exact .inl (hx.isLeaf hg hout hs)
  | some s => exact .inr (h.mem_outputs.mpr ⟨hx, by rw [hs]; rfl⟩)

/-- A computed operand of the static half is computed there. -/
theorem static_operand (h : g.Scheduled outputs schedule)
    (hp : Plan.ofSchedule schedule g.roots mask = .ok p) (hs : s ∈ p.steps .static)
    (hx : x ∈ s.operands) (hout : x ∈ schedule.outputs) : x ∈ (p.steps .static).outputs := by
  obtain ⟨t, ht, rfl⟩ := List.mem_map.mp hout
  obtain ⟨-, rfl⟩ := Plan.ofSchedule_eq_ok.mp hp
  have hfree := Schedule.operand_not_mem_dependents h.ordered.forward hs hx
  exact List.mem_map_of_mem (Schedule.mem_independent.mpr ⟨ht, hfree⟩)

end Scheduled

theorem mem_outputs_of_halves (hp : Plan.ofSchedule schedule g.roots mask = .ok p)
    (hx : x ∈ schedule.outputs) :
    x ∈ (p.steps .static).outputs ∨ x ∈ (p.steps .dynamic).outputs := by
  obtain ⟨t, ht, rfl⟩ := List.mem_map.mp hx
  obtain ⟨-, rfl⟩ := Plan.ofSchedule_eq_ok.mp hp
  by_cases hd : t.output ∈ schedule.dependents g.roots
  · exact .inr (List.mem_map_of_mem (Schedule.mem_dynamic.mpr ⟨ht, hd⟩))
  · exact .inl (List.mem_map_of_mem (Schedule.mem_independent.mpr ⟨ht, hd⟩))

/-- **A plan** of the graph, from a typed machine that holds the leaves, has no error. -/
theorem Built.execute_typed (hg : g.Built) (hdecl : g.DeclaresNonzero)
    (hout : ∀ x ∈ outputs, (g.node? x).isSome) (h : g.Scheduled outputs schedule)
    (hp : Plan.ofSchedule schedule g.roots mask = .ok p) (hm : g.Typed m)
    (hleaf : ∀ x, g.isLeaf x → (m.read x).isSome) (c : Counters) :
    g.RunsTyped schedule m (p.execute m c).last := by
  have hphase : ∀ phase m₁ c₁, g.Typed m₁ →
      (∀ s ∈ p.steps phase, ∀ x ∈ s.operands,
        x ∈ (p.steps phase).outputs ∨ (m₁.read x).isSome) →
      g.RunsTyped (p.steps phase) m₁ (p.runPhase phase m₁ c₁) := by
    intro phase m₁ c₁ hm₁ hheld
    have hsub := Plan.steps_sublist hp phase
    exact hg.runFrom_typed hdecl (h.ordered.sublist hsub) (Plan.steps_pure hp phase)
      (fun s hs => (h.mem_iff_step?.mp (hsub.subset hs)).2) hm₁ hheld c₁ 0
  have hoperand : ∀ phase, ∀ s ∈ p.steps phase, ∀ x ∈ s.operands,
      x ∈ schedule.outputs ∨ (m.read x).isSome := by
    intro phase s hs x hx
    have hneeded := h.needed_operand ((Plan.steps_sublist hp phase).subset hs) hx
    exact (h.leaf_or_output hg hout hneeded).symm.imp_right (hleaf x)
  have hstatic := hphase .static m c hm fun s hs x hx =>
    (hoperand .static s hs x hx).imp_left (h.static_operand hp hs hx)
  cases hstop : (p.runPhase .static m c).stop with
  | some why =>
    rw [Plan.execute_of_stop hstop]
    refine ⟨hstatic.typed, hstatic.stop, fun hnone => ?_⟩
    cases hstop.symm.trans hnone
  | none =>
    -- the dynamic half finds what the static one wrote, and what was held before
    have hmem : ∀ x, x ∈ schedule.outputs ∨ (m.read x).isSome →
        x ∈ (p.steps .dynamic).outputs ∨ ((p.runPhase .static m c).engine.read x).isSome := by
      rintro x (hx | hx)
      · rcases mem_outputs_of_halves hp hx with hx | hx
        · exact .inr (hstatic.held hstop x (.inl hx))
        · exact .inl hx
      · exact .inr (hstatic.held hstop x (.inr hx))
    have hdynamic := hphase .dynamic (p.runPhase .static m c).engine .zero hstatic.typed
      fun s hs x hx => hmem x (hoperand .dynamic s hs x hx)
    rw [Plan.execute_of_none hstop]
    exact ⟨hdynamic.typed, hdynamic.stop, fun hnone x hx => hdynamic.held hnone x (hmem x hx)⟩

end Graph

end Staging
