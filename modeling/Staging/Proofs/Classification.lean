import Staging.Proofs.Session

/-!
# A node is dynamic when an input reaches it

The plan of a graph is split by what one pass over its schedule finds. On the schedule of a graph
this is reachability in the graph: a node depends on the inputs exactly when a path of operands
leads from it to an input (`Graph.Scheduled.depends_iff`). The path does not mention the schedule,
so which half a node is in is a property of the node alone
(`Graph.Built.dynamic_iff_readsInput`).
-/

namespace Staging.Graph

variable {g : Graph} {outputs : List BufferId} {mask : DebugMask} {p : Plan} {schedule : Schedule}
  {x y : BufferId} {s : Step}

/-! ## Paths -/

/-- A path of operands leads from the node to one that is listed as an input. -/
def ReadsInput (g : Graph) (x : BufferId) : Prop :=
  ∃ y shape, (y, shape) ∈ g.inputs ∧ g.Needed [x] y

/-- What is listed as an input is an input, as long as ids are enough for all nodes. -/
theorem readsInput_iff (hids : g.size ≤ UInt32.size) :
    g.ReadsInput x ↔ ∃ y, g.IsInput y ∧ g.Needed [x] y := by
  refine exists_congr fun y => ?_
  simp only [mem_inputs, mem_numbered hids, IsInput, exists_and_right]

/-- What a needed node needs is needed. -/
theorem Needed.trans (hx : g.Needed outputs x) (hy : g.Needed [x] y) : g.Needed outputs y := by
  induction hy with
  | output hy => exact List.mem_singleton.mp hy ▸ hx
  | operand _ hz ih => exact .operand ih hz

/-- A node reads the inputs that its operands read. -/
theorem ReadsInput.of_operand (hy : y ∈ g.operands x) (h : g.ReadsInput y) : g.ReadsInput x := by
  obtain ⟨z, shape, hz, hpath⟩ := h
  have hfirst : g.Needed [x] y := .operand (.output List.mem_cons_self) hy
  exact ⟨z, shape, hz, hfirst.trans hpath⟩

/-! ## Dependence in the schedule -/

namespace Scheduled

/-- Dependence travels along a path of operands, from the end of the path to its start. -/
theorem depends_of_needed (h : g.Scheduled outputs schedule) (hx : g.Needed outputs x)
    (hpath : g.Needed [x] y) (hy : Schedule.Depends schedule g.roots y) :
    Schedule.Depends schedule g.roots x := by
  induction hpath with
  | output hmem => exact List.mem_singleton.mp hmem ▸ hy
  | @operand u y hu hmem ih =>
    -- `u` refers to `y`, so it is computed, and its step is scheduled
    obtain ⟨s, hs, hy'⟩ := exists_step_of_mem_operands hmem
    obtain ⟨rfl, -⟩ := step?_eq_some.mp hs
    exact ih (.step (h.mem_iff_step?.mpr ⟨hx.trans hu, hs⟩) hy' hy)

/-- **Dependence in the schedule is reachability in the graph.** -/
theorem depends_iff (h : g.Scheduled outputs schedule) (hx : g.Needed outputs x) :
    Schedule.Depends schedule g.roots x ↔ g.ReadsInput x := by
  constructor
  · intro hd
    clear hx
    induction hd with
    | root hroot =>
      obtain ⟨shape, hinput⟩ := mem_roots.mp hroot
      exact ⟨_, shape, hinput, .output List.mem_cons_self⟩
    | @step s y hs hy _ ih =>
      obtain ⟨-, hstep⟩ := h.mem_iff_step?.mp hs
      exact .of_operand (operands_of_step? hstep ▸ hy) ih
  · rintro ⟨y, shape, hy, hpath⟩
    exact h.depends_of_needed hx hpath (.root (mem_roots.mpr ⟨shape, hy⟩))

/-- The halves of the plan, by what the inputs reach. -/
theorem mem_halves_iff (h : g.Scheduled outputs schedule)
    (hp : Plan.ofSchedule schedule g.roots mask = .ok p) (hx : g.Needed outputs x)
    (hs : g.step? x = some s) :
    (s ∈ p.halves.dynamic ↔ g.ReadsInput x) ∧ (s ∈ p.halves.independent ↔ ¬ g.ReadsInput x) := by
  obtain ⟨-, rfl⟩ := Plan.ofSchedule_eq_ok.mp hp
  obtain ⟨rfl, -⟩ := step?_eq_some.mp hs
  have hmem : s ∈ schedule := h.mem_iff_step?.mpr ⟨hx, hs⟩
  have hdepends : s.output ∈ schedule.dependents g.roots ↔ g.ReadsInput s.output :=
    (Schedule.mem_dependents_iff h.ordered.forward).trans (h.depends_iff hx)
  rw [Schedule.mem_dynamic, Schedule.mem_independent, hdepends]
  exact ⟨and_iff_right hmem, and_iff_right hmem⟩

end Scheduled

/-! ## Compiled graphs -/

theorem node_of_mapM {nodes : List Node} (h : outputs.mapM g.node = .ok nodes) (hx : x ∈ outputs) :
    (g.node? x).isSome := by
  obtain ⟨n, -, hn⟩ := exists_of_forall₂ (mapM_eq_ok.mp h) hx
  exact Option.isSome_of_eq_some (node_eq_ok.mp hn)

/-- Nodes that need no load have a plan. -/
theorem Built.compile_ok (hg : g.Built) (hout : ∀ x ∈ outputs, (g.node? x).isSome)
    (hload : g.LoadFree outputs) (mask : DebugMask) : ∃ p, g.compile outputs mask = .ok p := by
  obtain ⟨schedule, hschedule, h⟩ := hg.scheduled hout
  exact ⟨_, compile_eq_ok.mpr ⟨schedule, hschedule,
    Plan.ofSchedule_eq_ok.mpr ⟨h.pure_of_loadFree hload, rfl⟩⟩⟩

/-- Only nodes have a plan. -/
theorem node_of_compile (h : g.compile outputs mask = .ok p) (hx : x ∈ outputs) :
    (g.node? x).isSome := by
  obtain ⟨schedule, hschedule, -⟩ := compile_eq_ok.mp h
  obtain ⟨nodes, hnodes, -⟩ := bind_eq_ok.mp hschedule
  exact node_of_mapM (Result.ofExcept_eq_ok.mp hnodes) hx

/-- A plan is the split of a schedule of the outputs. -/
theorem Built.scheduled_of_compile (hg : g.Built) (h : g.compile outputs mask = .ok p) :
    ∃ schedule, g.Scheduled outputs schedule ∧ Plan.ofSchedule schedule g.roots mask = .ok p := by
  obtain ⟨schedule, hschedule, hp⟩ := compile_eq_ok.mp h
  obtain ⟨schedule', hschedule', hs⟩ := hg.scheduled fun x hx => node_of_compile h hx
  cases hschedule.symm.trans hschedule'
  exact ⟨schedule, hs, hp⟩

/-- **Classification is dependence on the inputs.** In every plan of a built graph, each computed
node that the outputs need is dynamic exactly when a path of operands leads from it to an input, and
independent exactly when none does. So a node that two plans need is in the same half of both,
whatever else was asked for. The paths end at what the graph lists as its inputs; as long as ids are
enough for all nodes, these are the nodes that are inputs. -/
theorem Built.dynamic_iff_readsInput (hg : g.Built) (h : g.compile outputs mask = .ok p) :
    (∀ x s, g.Needed outputs x → g.step? x = some s →
      (s ∈ p.halves.dynamic ↔ g.ReadsInput x) ∧
        (s ∈ p.halves.independent ↔ ¬ g.ReadsInput x)) ∧
    (g.size ≤ UInt32.size → ∀ x, g.ReadsInput x ↔ ∃ y, g.IsInput y ∧ g.Needed [x] y) ∧
    ∀ outputs' mask' p', g.compile outputs' mask' = .ok p' →
      ∀ x s, g.Needed outputs x → g.Needed outputs' x → g.step? x = some s →
        (s ∈ p.halves.dynamic ↔ s ∈ p'.halves.dynamic) ∧
          (s ∈ p.halves.independent ↔ s ∈ p'.halves.independent) := by
  obtain ⟨schedule, hschedule, hp⟩ := hg.scheduled_of_compile h
  refine ⟨fun x s hx hs => hschedule.mem_halves_iff hp hx hs, fun hids x => readsInput_iff hids, ?_⟩
  intro outputs' mask' p' h' x s hx hx' hs
  obtain ⟨schedule', hschedule', hp'⟩ := hg.scheduled_of_compile h'
  obtain ⟨hdynamic, hindependent⟩ := hschedule.mem_halves_iff hp hx hs
  obtain ⟨hdynamic', hindependent'⟩ := hschedule'.mem_halves_iff hp' hx' hs
  exact ⟨hdynamic.trans hdynamic'.symm, hindependent.trans hindependent'.symm⟩

/-- A node on the way from the input to one output, and one that only a weight reaches, in the plan
of two outputs and in that of one of them. -/
theorem dynamic_iff_readsInput_shared :
    let x := BufferId.ofNat
    let g := Graph.empty.after [.input "x" [2], .weight "w" [2] #[1, 2],
      .push "y" (.unary .neg) [x 1], .push "z" (.binary .add) [x 0, x 2],
      .push "u" (.binary .mul) [x 3, x 3], .push "v" (.unary .exp) [x 2]]
    g.Built ∧ ∃ p p', g.compile [x 4, x 5] {} = .ok p ∧ g.compile [x 3] {} = .ok p' ∧
      (∃ s, g.step? (x 3) = some s ∧ s ∈ p.halves.dynamic ∧ s ∈ p'.halves.dynamic) ∧
      ∃ s, g.step? (x 2) = some s ∧ s ∈ p.halves.independent ∧ s ∈ p'.halves.independent := by
  intro x g
  have hg : g.Built := Built.empty.after _
  have hload : ∀ outputs, g.LoadFree outputs := loadFree_of_ids (by decide +kernel)
  have hout : ∀ y ∈ [x 4, x 5], (g.node? y).isSome := by decide +kernel
  have hout' : ∀ y ∈ [x 3], (g.node? y).isSome := by decide +kernel
  obtain ⟨p, hp⟩ := hg.compile_ok hout (hload _) {}
  obtain ⟨p', hp'⟩ := hg.compile_ok hout' (hload _) {}
  obtain ⟨hhalves, hinputs, hsame⟩ := hg.dynamic_iff_readsInput hp
  have hinputs := hinputs (by decide +kernel)
  have hthree : g.Needed [x 4, x 5] (x 3) :=
    .operand (.output List.mem_cons_self) (by decide +kernel)
  have htwo : g.Needed [x 3] (x 2) := .operand (.output List.mem_cons_self) (by decide +kernel)
  have hreads : g.ReadsInput (x 3) := (hinputs (x 3)).mpr
    ⟨x 0, ⟨[2], by decide +kernel⟩, .operand (.output List.mem_cons_self) (by decide +kernel)⟩
  have hfree : ¬ g.ReadsInput (x 2) := by
    rintro ⟨y, shape, hy, hpath⟩
    have hmem : y ∈ [x 2, x 1] := hpath.mem_of_closed (by decide +kernel) (by decide +kernel)
    have hlisted : ∀ i ∈ g.inputs, i.1 ∉ [x 2, x 1] := by decide +kernel
    exact hlisted (y, shape) hy hmem
  obtain ⟨s, hs⟩ : ∃ s, g.step? (x 3) = some s := Option.isSome_iff_exists.mp (by decide +kernel)
  obtain ⟨t, ht⟩ : ∃ t, g.step? (x 2) = some t := Option.isSome_iff_exists.mp (by decide +kernel)
  have hdynamic := (hhalves (x 3) s hthree hs).1.mpr hreads
  have hindependent := (hhalves (x 2) t (hthree.trans htwo) ht).2.mpr hfree
  refine ⟨hg, p, p', hp, hp', ⟨s, hs, hdynamic, ?_⟩, t, ht, hindependent, ?_⟩
  · exact (hsame _ _ _ hp' (x 3) s hthree (.output List.mem_cons_self) hs).1.mp hdynamic
  · exact (hsame _ _ _ hp' (x 2) t (hthree.trans htwo) htwo ht).2.mp hindependent

end Staging.Graph
