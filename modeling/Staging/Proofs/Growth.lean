import Staging.Proofs.Classification

/-!
# Graphs that grow

Further calls put nodes behind those that are there (`Graph.Grown`). A node refers to nodes before
it, so whatever starts from old nodes stays among them: both passes over the references of a graph
take the same steps on the larger one (`Graph.countReferences_of_extends`,
`Graph.takeReferences_of_extends`), and the schedule is the same.

The larger graph may have more inputs, and its plan starts from more roots. No step of the schedule
reads one of the new roots, so none of them makes a step dynamic
(`Schedule.mem_dependents_of_unread`), and the halves are the same too
(`Graph.Built.schedule_stable`).

**What it does not establish.** Further calls may want further outputs. What is stable is the
schedule of outputs that are named, not that of all outputs of the graph.
-/

namespace Staging

theorem IdSet.contains_congr {s t : IdSet} {x : BufferId} (h : x ∈ s ↔ x ∈ t) :
    s.contains x = t.contains x := by
  rw [Bool.eq_iff_iff, ← Std.ExtTreeSet.mem_iff_contains, ← Std.ExtTreeSet.mem_iff_contains]
  exact h

/-! ## Roots that no step reads -/

namespace Schedule

variable {schedule : Schedule} {found found' more : IdSet} {x : BufferId}

/-- A step finds nothing new by members that it does not read. -/
theorem mem_visit_of_unread {s : Step} (hfound : ∀ x, x ∈ found' ↔ x ∈ found ∨ x ∈ more)
    (hunread : ∀ x ∈ s.operands, x ∈ more → x ∈ found) :
    x ∈ visit found' s ↔ x ∈ visit found s ∨ x ∈ more := by
  have hreads : (∃ y ∈ s.operands, y ∈ found') ↔ ∃ y ∈ s.operands, y ∈ found := by
    refine exists_congr fun y => and_congr_right fun hy => ?_
    rw [hfound]
    exact ⟨fun h => h.elim id (hunread y hy), .inl⟩
  rw [mem_visit, mem_visit, hreads, hfound]
  exact or_right_comm

/-- **Members that no step reads are found, and nothing because of them.** -/
theorem mem_dependents_of_unread (hfound : ∀ x, x ∈ found' ↔ x ∈ found ∨ x ∈ more)
    (hunread : ∀ s ∈ schedule, ∀ x ∈ s.operands, x ∈ more → x ∈ found) :
    x ∈ schedule.dependents found' ↔ x ∈ schedule.dependents found ∨ x ∈ more := by
  induction schedule generalizing found found' with
  | nil => exact hfound x
  | cons s rest ih =>
    obtain ⟨hfirst, hrest⟩ := List.forall_mem_cons.mp hunread
    rw [dependents_cons, dependents_cons]
    refine ih (fun y => mem_visit_of_unread hfound hfirst) fun t ht y hy hmore => ?_
    exact mem_visit.mpr (.inl (hrest t ht y hy hmore))

/-- The halves depend on which outputs are found, and on nothing else. -/
theorem split_congr (h : ∀ s ∈ schedule, s.output ∈ found' ↔ s.output ∈ found) :
    schedule.split found' = schedule.split found := by
  have hcontains : ∀ s ∈ schedule, found'.contains s.output = found.contains s.output :=
    fun s hs => IdSet.contains_congr (h s hs)
  simp only [split, Partition.mk.injEq]
  refine ⟨List.filter_congr fun s hs => ?_, List.filter_congr fun s hs => hcontains s hs⟩
  rw [hcontains s hs]

end Schedule

namespace Graph

variable {g g' : Graph} {outputs stack ready : List BufferId} {t total taken : Tally}
  {x : BufferId} {node : Node} {c : Call}

/-! ## Growing -/

/-- The nodes of `g` are the first nodes of `g'`. -/
def Grown (g g' : Graph) : Prop := g.nodes.toList <+: g'.nodes.toList

theorem grown_call (g : Graph) (c : Call) : g.Grown (g.call c).2 := by
  obtain h | ⟨name, e, -, -, h⟩ | ⟨x, n, -, h⟩ := after_call_cases g c <;> rw [h]
  · exact List.prefix_rfl
  · exact ⟨[e.node], by rw [Graph.grow, Array.toList_push]⟩
  · exact List.prefix_rfl

/-- Calls let a graph grow, whether they succeed or fail. -/
theorem grown_after (g : Graph) (calls : List Call) : g.Grown (g.after calls) := by
  induction calls generalizing g with
  | nil => exact List.prefix_rfl
  | cons c calls ih => exact (grown_call g c).trans (ih (g.call c).2)

theorem Grown.size_le (h : g.Grown g') : g.size ≤ g'.size := by
  simpa [Graph.size] using List.IsPrefix.length_le h

theorem Grown.extends (h : g.Grown g') : g.Extends g' := by
  obtain ⟨rest, hrest⟩ := h
  intro x n hx
  have hlt := index_lt_of_node? hx
  rw [node?, ← Array.getElem?_toList] at hx ⊢
  rw [← hrest, List.getElem?_append_left (by simpa [Graph.size] using hlt)]
  exact hx

/-! ## The order of old nodes -/

theorem Extends.node?_eq (h : g.Extends g') (hx : (g.node? x).isSome) : g'.node? x = g.node? x := by
  obtain ⟨n, hn⟩ := Option.isSome_iff_exists.mp hx
  rw [hn, h x n hn]

/-- The operands of a node on the stack are nodes too. -/
theorem Built.stack_nodes (hg : g.Built) (hnode : g.node? x = some node)
    (hstack : ∀ y ∈ x :: stack, (g.node? y).isSome) :
    ∀ y ∈ node.operands.reverse ++ stack, (g.node? y).isSome := by
  intro y hy
  rcases List.mem_append.mp hy with hy | hy
  · exact Option.isSome_iff_exists.mpr (hg.operand_node hnode (List.mem_reverse.mp hy))
  · exact hstack y (List.mem_cons_of_mem x hy)

/-- **The first pass** takes the same steps on a graph with more nodes. -/
theorem countReferences_of_extends (hg : g.Built) (h : g.Extends g')
    (hstack : ∀ x ∈ stack, (g.node? x).isSome) :
    g'.countReferences stack t = g.countReferences stack t := by
  fun_induction countReferences g stack t with
  | case1 t => rw [countReferences]
  | case2 t x stack hx hnode =>
    have hsome := hstack x List.mem_cons_self
    rw [hnode] at hsome
    cases hsome
  | case3 t x stack hx node hnode ih =>
    rw [countReferences, if_pos hx]
    split
    next hnone => cases hnone.symm.trans (h x node hnode)
    next node' hnode' =>
      cases hnode'.symm.trans (h x node hnode)
      exact ih (hg.stack_nodes hnode hstack)
  | case4 t x stack hx ih =>
    rw [countReferences, if_neg hx]
    exact ih fun y hy => hstack y (List.mem_cons_of_mem x hy)

/-- **The second pass** takes the same steps on a graph with more nodes. -/
theorem takeReferences_of_extends (hg : g.Built) (h : g.Extends g')
    (hstack : ∀ x ∈ stack, (g.node? x).isSome) :
    g'.takeReferences total stack taken ready = g.takeReferences total stack taken ready := by
  fun_induction takeReferences g total stack taken ready with
  | case1 taken ready => rw [takeReferences]
  | case2 taken ready x stack hx =>
    rw [takeReferences]
    split
    next => rfl
    next n hx' => cases hx.symm.trans hx'
  | case3 taken ready x stack hnode hx =>
    have hsome := hstack x List.mem_cons_self
    rw [hnode] at hsome
    cases hsome
  | case4 taken ready x stack node hnode hx ih =>
    rw [takeReferences]
    split
    next hx' => cases hx.symm.trans hx'
    next n hx' =>
      cases hx.symm.trans hx'
      rw [if_pos rfl]
      split
      next hnone => cases hnone.symm.trans (h x node hnode)
      next node' hnode' =>
        cases hnode'.symm.trans (h x node hnode)
        exact ih (hg.stack_nodes hnode hstack)
  | case5 taken ready x stack n hx hnext ih =>
    rw [takeReferences]
    split
    next hx' => cases hx.symm.trans hx'
    next n' hx' =>
      cases hx.symm.trans hx'
      rw [if_neg hnext]
      exact ih fun y hy => hstack y (List.mem_cons_of_mem x hy)

theorem order_of_extends (hg : g.Built) (h : g.Extends g')
    (hout : ∀ x ∈ outputs, (g.node? x).isSome) : g'.order outputs = g.order outputs := by
  have hstack : ∀ x ∈ outputs.reverse, (g.node? x).isSome := fun x hx =>
    hout x (List.mem_reverse.mp hx)
  simp only [order, countReferences_of_extends hg h hstack, takeReferences_of_extends hg h hstack]

/-- **The schedule of old nodes** is the same in a graph with more nodes. -/
theorem schedule_of_extends (hg : g.Built) (h : g.Extends g')
    (hout : ∀ x ∈ outputs, (g.node? x).isSome) : g'.schedule outputs = g.schedule outputs := by
  obtain ⟨order, horder, -, hneeded, -⟩ := hg.order_ok hout
  obtain ⟨nodes, hnodes⟩ := mapM_node_ok hout
  obtain ⟨nodes', hnodes'⟩ := mapM_node_ok (g := g') fun x hx => by
    rw [h.node?_eq (hout x hx)]
    exact hout x hx
  have hsteps : order.filterMap g'.step? = order.filterMap g.step? := by
    refine List.filterMap_congr fun x hx => ?_
    obtain ⟨n, hn⟩ := ((hneeded x).mp hx).node hg hout
    rw [step?, step?, h.node?_eq (Option.isSome_of_eq_some hn)]
  simp only [schedule, order_of_extends hg h hout, hnodes, hnodes', horder, Result.ofExcept,
    Result.ofFaulty, bind, Except.bind, hsteps]

/-! ## The halves of old nodes -/

/-- A node is a root of the larger graph when it is one of the graph it was added to. -/
theorem Grown.mem_roots_iff (h : g.Grown g') (hids : g'.size ≤ UInt32.size)
    (hx : (g.node? x).isSome) : x ∈ g'.roots ↔ x ∈ g.roots := by
  have hids' : g.size ≤ UInt32.size := Nat.le_trans h.size_le hids
  simp only [mem_roots, mem_inputs, mem_numbered hids, mem_numbered hids', h.extends.node?_eq hx]

/-- The inputs stay inputs. -/
theorem Grown.roots_subset (h : g.Grown g') (hids : g'.size ≤ UInt32.size) (hx : x ∈ g.roots) :
    x ∈ g'.roots := by
  obtain ⟨shape, hinput⟩ := mem_roots.mp hx
  have hnode := (mem_numbered (Nat.le_trans h.size_le hids)).mp (mem_inputs.mp hinput)
  exact (h.mem_roots_iff hids (Option.isSome_of_eq_some hnode)).mpr hx

namespace Scheduled

variable {schedule : Schedule}

/-- What a scheduled step reads and writes are old nodes. -/
theorem nodes (hg : g.Built) (h : g.Scheduled outputs schedule) {s : Step} (hs : s ∈ schedule) :
    (g.node? s.output).isSome ∧ ∀ x ∈ s.operands, (g.node? x).isSome := by
  obtain ⟨-, hnode⟩ := (h.mem_iff s).mp hs
  refine ⟨Option.isSome_of_eq_some hnode, fun x hx => ?_⟩
  exact Option.isSome_iff_exists.mpr (hg.operand_node hnode hx)

/-- **More roots make no step dynamic**: the pass finds them, and nothing else that it did not find
before. -/
theorem mem_dependents_grown (hg : g.Built) (h : g.Scheduled outputs schedule) (hgrown : g.Grown g')
    (hids : g'.size ≤ UInt32.size) :
    x ∈ schedule.dependents g'.roots ↔ x ∈ schedule.dependents g.roots ∨ x ∈ g'.roots := by
  refine Schedule.mem_dependents_of_unread (fun y => ?_) fun s hs y hy hroot => ?_
  · exact (or_iff_right_of_imp (hgrown.roots_subset hids)).symm
  · exact (hgrown.mem_roots_iff hids ((h.nodes hg hs).2 y hy)).mp hroot

theorem output_mem_dependents_grown (hg : g.Built) (h : g.Scheduled outputs schedule)
    (hgrown : g.Grown g') (hids : g'.size ≤ UInt32.size) {s : Step} (hs : s ∈ schedule) :
    s.output ∈ schedule.dependents g'.roots ↔ s.output ∈ schedule.dependents g.roots := by
  rw [h.mem_dependents_grown hg hgrown hids]
  refine or_iff_left_of_imp fun hroot => Schedule.mem_dependents_of_root ?_
  exact (hgrown.mem_roots_iff hids (h.nodes hg hs).1).mp hroot

end Scheduled

/-- **Schedules are stable under growth.** Let further calls be made on a built graph, until there
are at most 2^32 nodes. For all nodes of the graph as outputs, the larger graph has the same
schedule, step by step. It has a plan when the graph has one, and otherwise the same error; and the
plan has the same halves, so that every step is in the same phase. What the plan knows to depend on
the inputs is more by the new inputs alone. -/
theorem Built.schedule_stable (hg : g.Built) (hout : ∀ x ∈ outputs, (g.node? x).isSome)
    (calls : List Call) (hids : (g.after calls).size ≤ UInt32.size) (mask : DebugMask) :
    let g' := g.after calls
    ∃ schedule, g.schedule outputs = .ok schedule ∧ g'.schedule outputs = .ok schedule ∧
      (g'.compile outputs mask).map Plan.halves = (g.compile outputs mask).map Plan.halves ∧
      ∀ p p', g.compile outputs mask = .ok p → g'.compile outputs mask = .ok p' →
        (∀ s ∈ schedule, Plan.phaseOf p'.depends s.output = Plan.phaseOf p.depends s.output) ∧
        ∀ x, x ∈ p'.depends ↔ x ∈ p.depends ∨ x ∈ g'.roots := by
  intro g'
  have hgrown : g.Grown g' := grown_after g calls
  obtain ⟨schedule, hschedule, h⟩ := hg.scheduled hout
  have hschedule' : g'.schedule outputs = .ok schedule :=
    (schedule_of_extends hg hgrown.extends hout).trans hschedule
  have houtput := fun s hs => h.output_mem_dependents_grown hg hgrown hids (s := s) hs
  refine ⟨schedule, hschedule, hschedule', ?_, fun p p' hp hp' => ?_⟩
  · have hsplit := Schedule.split_congr houtput
    rw [compile, compile, hschedule, hschedule']
    simp only [Result.mapError, bind, Except.bind, Plan.ofSchedule]
    cases schedule.impurity? with
    | some i => rfl
    | none => exact congrArg Except.ok hsplit
  · obtain ⟨_, hs, hplan⟩ := compile_eq_ok.mp hp
    obtain ⟨_, hs', hplan'⟩ := compile_eq_ok.mp hp'
    cases hs.symm.trans hschedule
    cases hs'.symm.trans hschedule'
    obtain ⟨-, rfl⟩ := Plan.ofSchedule_eq_ok.mp hplan
    obtain ⟨-, rfl⟩ := Plan.ofSchedule_eq_ok.mp hplan'
    refine ⟨fun s hs => ?_, fun x => h.mem_dependents_grown hg hgrown hids⟩
    rw [Plan.phaseOf, Plan.phaseOf, IdSet.contains_congr (houtput s hs)]

/-- A graph to which two inputs are added that later nodes join with the old ones, while two calls
fail. -/
theorem schedule_stable_with_new_inputs :
    let x := BufferId.ofNat
    let g := Graph.empty.after [.input "x" [2], .weight "w" [2] #[1, 2],
      .push "y" (.unary .neg) [x 1], .push "z" (.binary .add) [x 0, x 2]]
    let calls : List Call := [.input "u" [2], .input "x" [3], .push "v" (.binary .mul) [x 4, x 3],
      .push "t" .matmul [x 0, x 1], .input "s" [], .markOutput (x 3), .push "r" (.unary .exp) [x 2]]
    let g' := g.after calls
    g.Built ∧ (∀ y ∈ [x 3, x 2, x 0], (g.node? y).isSome) ∧ g'.size ≤ UInt32.size ∧
      g.size = 4 ∧ g'.size = 8 ∧ x 4 ∈ g'.roots ∧ x 6 ∈ g'.roots ∧
      (∃ schedule, g.schedule [x 3, x 2, x 0] = .ok schedule ∧
        g'.schedule [x 3, x 2, x 0] = .ok schedule) ∧
      (g'.compile [x 3, x 2, x 0] {}).map Plan.halves =
        (g.compile [x 3, x 2, x 0] {}).map Plan.halves := by
  intro x g calls g'
  have hg : g.Built := Built.empty.after _
  have hout : ∀ y ∈ [x 3, x 2, x 0], (g.node? y).isSome := by decide +kernel
  have hids : g'.size ≤ UInt32.size := by decide +kernel
  have hroot : ∀ y ∈ [x 4, x 6], y ∈ g'.roots := by decide +kernel
  obtain ⟨schedule, hschedule, hschedule', hhalves, -⟩ := hg.schedule_stable hout calls hids {}
  exact ⟨hg, hout, hids, by decide +kernel, by decide +kernel, hroot _ (by decide),
    hroot _ (by decide), ⟨schedule, hschedule, hschedule'⟩, hhalves⟩

end Graph

end Staging
