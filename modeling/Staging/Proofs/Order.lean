import Mathlib.Data.List.Flatten
import Mathlib.Data.List.Perm.Subperm
import Staging.Proofs.Built
import Staging.Proofs.Schedule

/-!
# The order of a graph

A graph is ordered by two passes over references. Each is described by an invariant with one
equation in it, the balance: for every node, the references that were met and those that are still
on the stack are together the references from the outputs and from the nodes that have put theirs on
the stack (`Counting.balance`, `Taking.balance`). When the stack is empty, the first pass has
counted all references from needed nodes, and the second has taken as many.

`Graph.Built.schedule_exact` is the result: the schedule of some outputs exists, holds exactly the
computed nodes that the outputs need, each once, and each after its operands.

**What it does not establish.** Several orders may keep every node after its operands; which of them
is found is not said. The counts of both passes are bounded by the number of references
(`Counting.count_le`, `Taking.count_le`), and nothing bounds that number itself.
-/

namespace Staging.Graph

variable {g : Graph} {outputs stack met ready : List BufferId} {t total taken : Tally}
  {x y : BufferId} {node : Node}

/-! ## References -/

/-- The nodes to which a node refers. -/
def operands (g : Graph) (x : BufferId) : List BufferId := ((g.node? x).map Node.operands).getD []

/-- The nodes that are needed for some outputs. -/
inductive Needed (g : Graph) (outputs : List BufferId) : BufferId → Prop where
  | output {x : BufferId} : x ∈ outputs → Needed g outputs x
  | operand {x y : BufferId} : Needed g outputs x → y ∈ g.operands x → Needed g outputs y

theorem operands_of_node? (h : g.node? x = some node) : g.operands x = node.operands := by
  rw [operands, h]
  rfl

/-- Operands have smaller ids, and are nodes. -/
theorem Built.operands_lt (hg : g.Built) (h : y ∈ g.operands x) : y.index < x.index := by
  unfold operands at h
  cases hx : g.node? x with
  | none => rw [hx] at h; cases h
  | some node => rw [hx] at h; exact hg.operand_lt hx h

/-- How often the outputs and some nodes refer to a node. -/
def references (g : Graph) (outputs nodes : List BufferId) (z : BufferId) : Nat :=
  (outputs ++ nodes.flatMap g.operands).count z

theorem references_cons (g : Graph) (outputs nodes : List BufferId) (x z : BufferId) :
    g.references outputs (x :: nodes) z =
      (g.operands x).count z + g.references outputs nodes z := by
  simp only [references, List.flatMap_cons, List.count_append]
  omega

/-- More nodes have more references, by those from the nodes that are new. -/
theorem references_of_subset (hready : ready.Nodup) (hmet : met.Nodup) (hsub : ready ⊆ met)
    (z : BufferId) :
    g.references outputs met z =
      g.references outputs ready z + ((met.filter (· ∉ ready)).flatMap g.operands).count z := by
  have hnodup : (ready ++ met.filter (· ∉ ready)).Nodup := by
    refine List.nodup_append.mpr ⟨hready, hmet.filter _, ?_⟩
    rintro a ha b hb rfl
    exact of_decide_eq_true (List.mem_filter.mp hb).2 ha
  have hperm : met.Perm (ready ++ met.filter (· ∉ ready)) := by
    refine (List.perm_ext_iff_of_nodup hmet hnodup).mpr fun a => ?_
    by_cases ha : a ∈ ready
    · simp [ha, hsub ha]
    · simp [ha]
  simp only [references, List.count_append, (hperm.flatMap_right g.operands).count_eq,
    List.flatMap_append]
  omega

/-- A node has a reference to it when it is an output or an operand. -/
theorem references_ne_zero :
    g.references outputs met x ≠ 0 ↔ x ∈ outputs ∨ ∃ y ∈ met, x ∈ g.operands y := by
  rw [references, ← Nat.pos_iff_ne_zero, List.count_pos_iff]
  simp

/-- How many references there are: those of the outputs and those of every node. -/
def referenceCount (g : Graph) (outputs : List BufferId) : Nat :=
  (outputs ++ g.ids.flatMap g.operands).length

/-- Nodes that are listed once each refer to a node no more often than there are references. -/
theorem references_le_referenceCount (hmet : met.Nodup)
    (hnodes : ∀ x ∈ met, ∃ n, g.node? x = some n) (z : BufferId) :
    g.references outputs met z ≤ g.referenceCount outputs := by
  have hsub : met ⊆ g.ids := fun x hx => by
    obtain ⟨n, hn⟩ := hnodes x hx
    exact mem_ids hn
  obtain ⟨nodes, hperm, hnodes⟩ := List.subperm_of_subset hmet hsub
  calc g.references outputs met z
    _ ≤ (outputs ++ met.flatMap g.operands).length := List.count_le_length
    _ = (outputs ++ nodes.flatMap g.operands).length := by
      rw [List.length_append, List.length_append, (hperm.flatMap_right g.operands).length_eq]
    _ ≤ g.referenceCount outputs :=
      ((hnodes.flatMap g.operands).append_left outputs).length_le

/-! ## The first pass -/

/-- The state of the first pass: `met` lists the nodes that were met. -/
structure Counting (g : Graph) (outputs stack : List BufferId) (t : Tally) (met : List BufferId) :
    Prop where
  nodup : met.Nodup
  mem_iff : ∀ x, x ∈ met ↔ t.count x ≠ 0
  nodes : ∀ x ∈ met, ∃ n, g.node? x = some n
  balance : ∀ z, t.count z + stack.count z = g.references outputs met z

/-- What is on the stack is a node. -/
theorem Counting.node_of_mem (hg : g.Built) (hout : ∀ x ∈ outputs, (g.node? x).isSome)
    (h : Counting g outputs stack t met) (hx : x ∈ stack) : ∃ n, g.node? x = some n := by
  have hcount := List.count_pos_iff.mpr hx
  have hrefs : g.references outputs met x ≠ 0 := by
    rw [← h.balance x]
    omega
  rcases references_ne_zero.mp hrefs with hx | ⟨y, hy, hx⟩
  · exact Option.isSome_iff_exists.mp (hout x hx)
  · obtain ⟨n, hn⟩ := h.nodes y hy
    exact hg.operand_node hn (operands_of_node? hn ▸ hx)

/-- A node that is met for the first time puts its operands on the stack. -/
theorem Counting.first (h : Counting g outputs (x :: stack) t met) (hx : t.count x = 0)
    (hnode : g.node? x = some node) :
    Counting g outputs (node.operands.reverse ++ stack) (t.bump x) (x :: met) where
  nodup := List.nodup_cons.mpr ⟨fun hmem => (h.mem_iff x).mp hmem hx, h.nodup⟩
  mem_iff y := by
    rw [List.mem_cons, h.mem_iff y, Tally.count_bump]
    by_cases hyx : y = x
    · simp [hyx]
    · simp [hyx, Ne.symm hyx]
  nodes y hy := by
    rcases List.mem_cons.mp hy with rfl | hy
    · exact ⟨node, hnode⟩
    · exact h.nodes y hy
  balance z := by
    have hz := h.balance z
    rw [references_cons, operands_of_node? hnode, ← hz, Tally.count_bump, List.count_append,
      List.count_reverse, List.count_cons]
    simp only [beq_iff_eq]
    omega

/-- A node that is met again is only counted. -/
theorem Counting.again (h : Counting g outputs (x :: stack) t met) (hx : t.count x ≠ 0) :
    Counting g outputs stack (t.bump x) met where
  nodup := h.nodup
  mem_iff y := by
    rw [h.mem_iff y, Tally.count_bump]
    by_cases hxy : x = y
    · subst hxy
      simp [hx]
    · simp [hxy]
  nodes := h.nodes
  balance z := by
    rw [← h.balance z, Tally.count_bump, List.count_cons]
    simp only [beq_iff_eq]
    omega

/-- **The first pass ends** and has counted all references from the nodes that it met. -/
theorem Counting.run (hg : g.Built) (hout : ∀ x ∈ outputs, (g.node? x).isSome)
    (h : Counting g outputs stack t met) :
    ∃ total met, g.countReferences stack t = .ok total ∧ Counting g outputs [] total met := by
  fun_induction countReferences g stack t generalizing met with
  | case1 t => exact ⟨t, met, rfl, h⟩
  | case2 t x stack hx hnode =>
    obtain ⟨n, hn⟩ := Counting.node_of_mem hg hout h List.mem_cons_self
    exact absurd (hnode.symm.trans hn) (by simp)
  | case3 t x stack hx node hnode ih => exact ih (h.first hx hnode)
  | case4 t x stack hx ih => exact ih (h.again hx)

/-- No count of the first pass is above the number of references, at any time. With fewer than
`2 ^ 32` references the counts are those of a word of 32 bits. -/
theorem Counting.count_le (h : Counting g outputs stack t met) (z : BufferId) :
    t.count z ≤ g.referenceCount outputs := by
  calc t.count z
    _ ≤ t.count z + stack.count z := Nat.le_add_right _ _
    _ = g.references outputs met z := h.balance z
    _ ≤ g.referenceCount outputs := references_le_referenceCount h.nodup h.nodes z

/-! ## The second pass -/

/-- The state of the second pass, after a first one that found the totals. -/
structure Taking (g : Graph) (outputs : List BufferId) (total : Tally) (stack : List BufferId)
    (taken : Tally) (ready : List BufferId) : Prop where
  nodup : ready.Nodup
  mem_iff : ∀ x, x ∈ ready ↔ total.count x ≠ 0 ∧ taken.count x = total.count x
  balance : ∀ z, taken.count z + stack.count z = g.references outputs ready z
  forward : ready.Pairwise fun x y => y ∉ g.operands x

theorem Taking.subset (hc : Counting g outputs [] total met)
    (h : Taking g outputs total stack taken ready) : ready ⊆ met := fun x hx =>
  (hc.mem_iff x).mpr ((h.mem_iff x).mp hx).1

/-- The total of a node is made up of the references that were taken, those on the stack, and those
from nodes that are not ready. -/
theorem Taking.total_eq (hc : Counting g outputs [] total met)
    (h : Taking g outputs total stack taken ready) (z : BufferId) :
    total.count z = taken.count z + stack.count z +
      ((met.filter (· ∉ ready)).flatMap g.operands).count z := by
  have hz := hc.balance z
  rw [List.count_nil, Nat.add_zero] at hz
  rw [hz, h.balance z, references_of_subset h.nodup hc.nodup (h.subset hc)]

/-- No count of the second pass is above the total, and so above the number of references. -/
theorem Taking.count_le (hc : Counting g outputs [] total met)
    (h : Taking g outputs total stack taken ready) (z : BufferId) :
    taken.count z ≤ total.count z ∧ total.count z ≤ g.referenceCount outputs := by
  have htotal := h.total_eq hc z
  exact ⟨by omega, hc.count_le z⟩

/-- A node becomes ready when its last reference is taken. No node that is ready by then is among
its operands: the reference to it would not have been taken. -/
theorem Taking.last (hc : Counting g outputs [] total met)
    (h : Taking g outputs total (x :: stack) taken ready) (hx : taken.count x + 1 = total.count x)
    (hnode : g.node? x = some node) :
    Taking g outputs total (node.operands.reverse ++ stack) (taken.bump x) (x :: ready) where
  nodup := List.nodup_cons.mpr ⟨fun hmem => by have := ((h.mem_iff x).mp hmem).2; omega, h.nodup⟩
  mem_iff y := by
    rw [List.mem_cons, h.mem_iff y, Tally.count_bump]
    by_cases hyx : y = x
    · subst hyx
      simp
      omega
    · simp [hyx, Ne.symm hyx]
  balance z := by
    have hz := h.balance z
    rw [references_cons, operands_of_node? hnode, ← hz, Tally.count_bump, List.count_append,
      List.count_reverse, List.count_cons]
    simp only [beq_iff_eq]
    omega
  forward := by
    refine List.pairwise_cons.mpr ⟨fun y hy hmem => ?_, h.forward⟩
    -- `x` is not ready yet, so its reference to `y` is missing from what was taken of `y`
    have hnot : x ∉ ready := fun hr => by have := ((h.mem_iff x).mp hr).2; omega
    have hmet : x ∈ met := (hc.mem_iff x).mpr (by omega)
    have hpos : 0 < ((met.filter (· ∉ ready)).flatMap g.operands).count y := by
      refine List.count_pos_iff.mpr (List.mem_flatMap.mpr ⟨x, ?_, hmem⟩)
      exact List.mem_filter.mpr ⟨hmet, decide_eq_true hnot⟩
    have htotal := h.total_eq hc y
    have hready := ((h.mem_iff y).mp hy).2
    omega

/-- A reference that is not the last one is only taken. -/
theorem Taking.next (hc : Counting g outputs [] total met)
    (h : Taking g outputs total (x :: stack) taken ready) (hx : taken.count x + 1 ≠ total.count x) :
    Taking g outputs total stack (taken.bump x) ready where
  nodup := h.nodup
  mem_iff y := by
    rw [h.mem_iff y, Tally.count_bump]
    by_cases hxy : x = y
    · subst hxy
      have htotal := h.total_eq hc x
      rw [List.count_cons_self] at htotal
      simp only [if_pos]
      omega
    · simp [hxy]
  balance z := by
    rw [← h.balance z, Tally.count_bump, List.count_cons]
    simp only [beq_iff_eq]
    omega
  forward := h.forward

/-- **The second pass ends**, without meeting a node that the first one has not counted. -/
theorem Taking.run (hc : Counting g outputs [] total met)
    (h : Taking g outputs total stack taken ready) :
    ∃ taken' order, g.takeReferences total stack taken ready = .ok order ∧
      Taking g outputs total [] taken' order := by
  fun_induction takeReferences g total stack taken ready with
  | case1 taken ready => exact ⟨taken, ready, rfl, h⟩
  | case2 taken ready x stack hx =>
    have htotal := h.total_eq hc x
    rw [List.count_cons_self, Tally.count_of_none hx] at htotal
    omega
  | case3 taken ready x stack hnode hx =>
    have hmet : x ∈ met := (hc.mem_iff x).mpr (by rw [Tally.count_of_some hx]; omega)
    obtain ⟨node, hnode'⟩ := hc.nodes x hmet
    exact absurd (hnode.symm.trans hnode') (by simp)
  | case4 taken ready x stack node hnode hx ih =>
    exact ih (h.last hc (Tally.count_of_some hx).symm hnode)
  | case5 taken ready x stack n hx hnext ih =>
    exact ih (h.next hc (Tally.count_of_some hx ▸ hnext))

/-! ## The order -/

/-- What holds of a node whenever it holds of the nodes that refer to it holds of every node. -/
theorem Built.induction_on_users (hg : g.Built) {P : BufferId → Prop}
    (step : ∀ x, (∀ y, x ∈ g.operands y → P y) → P x) (x : BufferId) : P x := by
  induction hk : g.size - x.index using Nat.strongRecOn generalizing x with
  | ind k ih =>
    refine step x fun y hy => ih (g.size - y.index) ?_ y rfl
    have hlt := hg.operands_lt hy
    have hsize : y.index < g.size := by
      cases hn : g.node? y with
      | none => rw [operands, hn] at hy; cases hy
      | some n => exact index_lt_of_node? hn
    omega

/-- The first pass meets exactly the nodes that are needed. -/
theorem Counting.mem_iff_needed (hg : g.Built) (hc : Counting g outputs [] total met) :
    x ∈ met ↔ g.Needed outputs x := by
  have hmem : ∀ x, x ∈ met ↔ g.references outputs met x ≠ 0 := fun x => by
    rw [hc.mem_iff x, ← hc.balance x]
    simp
  constructor
  · -- a node that was met is an output or has a user that was met, so the induction is on users
    induction x using hg.induction_on_users with
    | step x ih =>
      intro hx
      rcases references_ne_zero.mp ((hmem x).mp hx) with hx | ⟨y, hy, hxy⟩
      · exact .output hx
      · exact .operand (ih y hxy hy) hxy
  · intro h
    induction h with
    | output hx => exact (hmem _).mpr (references_ne_zero.mpr (.inl hx))
    | operand _ hy ih => exact (hmem _).mpr (references_ne_zero.mpr (.inr ⟨_, ih, hy⟩))

/-- The second pass makes every node ready that the first one has met. -/
theorem Taking.complete (hg : g.Built) (hc : Counting g outputs [] total met)
    (h : Taking g outputs total [] taken ready) : x ∈ met → x ∈ ready := by
  induction x using hg.induction_on_users with | step x ih => ?_
  intro hx
  -- all users of `x` are ready, so that nothing of its total is left
  have hnone : ((met.filter (· ∉ ready)).flatMap g.operands).count x = 0 := by
    refine List.count_eq_zero.mpr fun hmem => ?_
    obtain ⟨y, hy, hxy⟩ := List.mem_flatMap.mp hmem
    obtain ⟨hmet, hnot⟩ := List.mem_filter.mp hy
    exact of_decide_eq_true hnot (ih y hxy hmet)
  have htotal := h.total_eq hc x
  rw [hnone, List.count_nil] at htotal
  exact (h.mem_iff x).mpr ⟨(hc.mem_iff x).mp hx, by omega⟩

/-- The order of a built graph lists the needed nodes, each once and after its operands. -/
theorem Built.order_ok (hg : g.Built) (hout : ∀ x ∈ outputs, (g.node? x).isSome) :
    ∃ order, g.order outputs = .ok order ∧ order.Nodup ∧
      (∀ x, x ∈ order ↔ g.Needed outputs x) ∧ order.Pairwise fun x y => y ∉ g.operands x := by
  have hstart : Counting g outputs outputs.reverse ∅ [] := by
    refine ⟨List.nodup_nil, fun x => by simp, fun x hx => absurd hx List.not_mem_nil, fun z => ?_⟩
    simp [references]
  obtain ⟨total, met, hcount, hc⟩ := hstart.run hg hout
  have hempty : Taking g outputs total outputs.reverse ∅ [] := by
    refine ⟨List.nodup_nil, fun x => ?_, fun z => by simp [references], List.Pairwise.nil⟩
    simp [eq_comm]
  obtain ⟨taken, order, htake, h⟩ := hempty.run hc
  refine ⟨order, ?_, h.nodup, fun x => ?_, h.forward⟩
  · simp only [Graph.order, hcount, bind, Except.bind]
    exact htake
  · rw [← hc.mem_iff_needed hg]
    exact ⟨fun hx => h.subset hc hx, h.complete hg hc⟩

/-! ## The schedule -/

theorem step?_eq_some {s : Step} :
    g.step? x = some s ↔
      s.output = x ∧ g.node? x = some (.apply s.op s.operands s.shape) := by
  unfold step?
  split
  next op operands shape hx =>
    obtain ⟨op', x', operands', shape'⟩ := s
    simp only [Option.some.injEq, Step.mk.injEq, hx, Node.apply.injEq]
    constructor
    · rintro ⟨rfl, rfl, rfl, rfl⟩
      exact ⟨rfl, rfl, rfl, rfl⟩
    · rintro ⟨rfl, rfl, rfl, rfl⟩
      exact ⟨rfl, rfl, rfl, rfl⟩
  next hx => exact iff_of_false (fun h => nomatch h) fun h => hx _ _ _ h.2

/-- A schedule of the computed nodes that some outputs need, in an order that can be run. -/
structure Scheduled (g : Graph) (outputs : List BufferId) (schedule : Schedule) : Prop where
  mem_iff : ∀ s, s ∈ schedule ↔
    g.Needed outputs s.output ∧ g.node? s.output = some (.apply s.op s.operands s.shape)
  ordered : schedule.WellOrdered

theorem mapM_node_ok (hout : ∀ x ∈ outputs, (g.node? x).isSome) :
    ∃ nodes, outputs.mapM g.node = .ok nodes := by
  induction outputs with
  | nil => exact ⟨[], rfl⟩
  | cons x outputs ih =>
    obtain ⟨n, hn⟩ := Option.isSome_iff_exists.mp (hout x List.mem_cons_self)
    obtain ⟨nodes, hnodes⟩ := ih fun y hy => hout y (List.mem_cons_of_mem x hy)
    refine ⟨n :: nodes, ?_⟩
    rw [List.mapM_cons]
    exact bind_eq_ok.mpr ⟨n, node_eq_ok.mpr hn, bind_eq_ok.mpr ⟨nodes, hnodes, rfl⟩⟩

/-- **The schedule of a built graph** exists and is one. -/
theorem Built.scheduled (hg : g.Built) (hout : ∀ x ∈ outputs, (g.node? x).isSome) :
    ∃ schedule, g.schedule outputs = .ok schedule ∧ g.Scheduled outputs schedule := by
  obtain ⟨order, horder, hnodup, hmem, hforward⟩ := hg.order_ok hout
  obtain ⟨nodes, hnodes⟩ := mapM_node_ok hout
  have hstep : ∀ s, s ∈ order.filterMap g.step? ↔
      g.Needed outputs s.output ∧ g.node? s.output = some (.apply s.op s.operands s.shape) := by
    intro s
    simp only [List.mem_filterMap, step?_eq_some, hmem]
    constructor
    · rintro ⟨x, hx, rfl, hnode⟩
      exact ⟨hx, hnode⟩
    · rintro ⟨hx, hnode⟩
      exact ⟨s.output, hx, rfl, hnode⟩
  refine ⟨order.filterMap g.step?, ?_, hstep, ?_, fun s hs hself => ?_, ?_⟩
  · exact bind_eq_ok.mpr ⟨nodes, Result.ofExcept_eq_ok.mpr hnodes,
      bind_eq_ok.mpr ⟨order, Result.ofFaulty_eq_ok.mpr horder, rfl⟩⟩
  · refine List.pairwise_map.mpr (List.pairwise_filterMap.mpr (hnodup.imp ?_))
    intro x y hxy s hs t ht
    rwa [(step?_eq_some.mp hs).1, (step?_eq_some.mp ht).1]
  · have := hg.operand_lt ((hstep s).mp hs).2 hself
    omega
  · refine List.pairwise_filterMap.mpr (hforward.imp ?_)
    intro x y hxy s hs t ht
    rw [operands_of_node? (step?_eq_some.mp hs).2] at hxy
    rw [(step?_eq_some.mp ht).1]
    exact hxy

/-- An operand of a scheduled step is a leaf of the graph or the output of a scheduled step. -/
theorem Scheduled.operand_cases (hg : g.Built) {schedule : Schedule}
    (h : g.Scheduled outputs schedule) {s : Step} (hs : s ∈ schedule) (hy : y ∈ s.operands) :
    (∃ shape, g.node? y = some (.input shape)) ∨
      (∃ shape, g.node? y = some (.weight shape)) ∨ ∃ t ∈ schedule, t.output = y := by
  obtain ⟨hneeded, hnode⟩ := (h.mem_iff s).mp hs
  have hy' : y ∈ g.operands s.output := by rwa [operands_of_node? hnode]
  obtain ⟨n, hn⟩ := hg.operand_node hnode hy
  cases n with
  | input shape => exact .inl ⟨shape, hn⟩
  | weight shape => exact .inr (.inl ⟨shape, hn⟩)
  | apply op operands shape =>
    exact .inr (.inr ⟨⟨op, y, operands, shape⟩, (h.mem_iff _).mpr ⟨.operand hneeded hy', hn⟩, rfl⟩)

/-- **The schedule is exact.** For every built graph and all nodes as outputs there is a schedule.
It holds the step of every computed node that the outputs need and no other step, and no node twice;
and an operand of a step is an input, a weight, or the output of a step before it. -/
theorem Built.schedule_exact (hg : g.Built) (hout : ∀ x ∈ outputs, (g.node? x).isSome) :
    ∃ schedule, g.schedule outputs = .ok schedule ∧ schedule.outputs.Nodup ∧
      (∀ s, s ∈ schedule ↔
        g.Needed outputs s.output ∧ g.node? s.output = some (.apply s.op s.operands s.shape)) ∧
      ∀ (i : Nat) (s : Step), schedule[i]? = some s → ∀ y ∈ s.operands,
        (∃ shape, g.node? y = some (.input shape)) ∨
          (∃ shape, g.node? y = some (.weight shape)) ∨
          ∃ j t, j < i ∧ schedule[j]? = some t ∧ t.output = y := by
  obtain ⟨schedule, hschedule, h⟩ := hg.scheduled hout
  refine ⟨schedule, hschedule, h.ordered.distinct, h.mem_iff, fun i s hi y hy => ?_⟩
  have hs := List.mem_of_getElem? hi
  rcases h.operand_cases hg hs hy with hinput | hweight | ⟨t, ht, rfl⟩
  · exact .inl hinput
  · exact .inr (.inl hweight)
  · obtain ⟨j, hj⟩ := List.mem_iff_getElem?.mp ht
    refine .inr (.inr ⟨j, t, ?_, hj, rfl⟩)
    rcases Nat.lt_trichotomy j i with hlt | rfl | hlt
    · exact hlt
    · cases hi.symm.trans hj
      exact absurd hy (h.ordered.separate s hs)
    · obtain ⟨hilt, rfl⟩ := List.getElem?_eq_some_iff.mp hi
      obtain ⟨hjlt, rfl⟩ := List.getElem?_eq_some_iff.mp hj
      exact absurd hy (List.pairwise_iff_getElem.mp h.ordered.forward i j hilt hjlt hlt)

/-- A node that is an output twice, and one that is an output, shared, and squares its operand. -/
theorem schedule_exact_shared :
    let x := BufferId.ofNat
    let g := Graph.empty.after [.input "x" [2], .weight "w" [2] #[1, 2],
      .push "y" (.binary .mul) [x 0, x 0], .push "u" (.binary .add) [x 2, x 1],
      .push "v" (.binary .sub) [x 3, x 2]]
    g.Built ∧ (∀ y ∈ [x 4, x 2, x 4], (g.node? y).isSome) ∧
      ∃ schedule, g.schedule [x 4, x 2, x 4] = .ok schedule ∧ schedule.outputs.Nodup := by
  intro x g
  have hg : g.Built := Built.empty.after _
  have hout : ∀ y ∈ [x 4, x 2, x 4], (g.node? y).isSome := by decide +kernel
  obtain ⟨schedule, hschedule, hnodup, -⟩ := hg.schedule_exact hout
  exact ⟨hg, hout, schedule, hschedule, hnodup⟩

end Staging.Graph
