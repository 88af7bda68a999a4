import Mathlib.Data.List.Perm.Subperm
import Staging.Proofs.Classification
import Staging.Proofs.Typed

/-!
# What an execution counts

The cost of a step is computed from the buffers that are held when the step is executed. For the
steps of a graph it is a matter of shapes: where the leaves are held in their shapes, every node
that a run has computed is (`Graph.Scheduled.holds`), whatever was held for it before, and buffers
of these shapes have a cost that the rules of shapes give (`Step.cost_of_held`). An execution that
ends well has counted these costs for the dynamic half, from zero (`Graph.Built.execute_counts`).

**What it does not establish.** These are numbers of operations and bytes, as the rules of shapes
count them; the time that a step takes is not among them. Sums are taken modulo 2^64, and no bound
is given below which they are exact.
-/

namespace Staging

/-! ## Costs from shapes -/

/-- The arithmetic operations that make an array of a shape from arrays of given shapes. A product
of matrices has a multiplication and an addition for each term of each sum. -/
def Op.work : Op → List Shape → Shape → Nat
  | .unary _, _, shape | .binary _, _, shape => shape.count
  | .reduce _, [xs], _ => xs.count
  | .matmul, [[m, k], [_, n]], _ => 2 * m * n * k
  | _, _, _ => 0

/-- The values in arrays of these shapes, all together. -/
def Shape.countAll (shapes : List Shape) : Nat := shapes.foldl (fun n xs => n + xs.count) 0

namespace Step

variable {s : Step} {read : Reader} {shapes : List Shape}

/-- The operations of a step over buffers of shapes that make its own. -/
theorem opCount_of_held (hmakes : s.op.Makes shapes s.shape) (hheld : Held read s.operands shapes)
    {n : Nat} (h : s.opCount read s.shape.count = .ok n) : n = s.op.work shapes s.shape := by
  unfold opCount at h
  generalize s.op = op at hmakes h
  generalize s.shape = shape at hmakes h
  cases hmakes with
  | given harity =>
    cases op with
    | load _ => cases h; rfl
    | fill _ => cases h; rfl
    | _ => cases harity
  | unary => cases h; rfl
  | reduce =>
    cases h
    rw [hheld.readCount]
    exact Nat.zero_add _
  | binary _ => cases h; rfl
  | @matmul m k l =>
    obtain ⟨t, ht, hn⟩ := bind_eq_ok.mp h
    have hinner : s.innerLength read = k := hheld.innerLength
    calc n
      _ = t * s.innerLength read := (Size.mul_eq_ok.mp hn).1
      _ = 2 * Shape.count [m, l] * k := by rw [(Size.mul_eq_ok.mp ht).1, hinner]
      _ = 2 * m * l * k := by rw [Shape.count_pair, Nat.mul_assoc 2 m l]

/-- **The cost of a step** over buffers of shapes that make its own. -/
theorem cost_of_held (hmakes : s.op.Makes shapes s.shape) (hheld : Held read s.operands shapes)
    {k : Cost} (h : s.cost read = .ok k) :
    k.ops = UInt64.ofNat (s.op.work shapes s.shape) ∧
      k.mem = UInt64.ofNat (4 * (s.shape.count + Shape.countAll shapes)) := by
  obtain ⟨n, hn, h⟩ := bind_eq_ok.mp h
  obtain ⟨ops, hops, h⟩ := bind_eq_ok.mp h
  obtain ⟨mem, hmem, h⟩ := bind_eq_ok.mp h
  cases h
  obtain rfl := Shape.count_of_size hn
  have hread : s.readCount read = Shape.countAll shapes := hheld.readCount
  refine ⟨congrArg UInt64.ofNat (opCount_of_held hmakes hheld hops), congrArg UInt64.ofNat ?_⟩
  rw [(Size.mul_eq_ok.mp hmem).1, hread, Nat.mul_comm, Nat.add_comm]

end Step

/-! ## Schedules -/

namespace Schedule

variable {schedule : Schedule}

/-- An amount for each step, added up. -/
def total (schedule : Schedule) (amount : Step → Nat) : Nat :=
  schedule.foldr (fun s n => amount s + n) 0

theorem total_cons (s : Step) (rest : Schedule) (amount : Step → Nat) :
    total (s :: rest) amount = amount s + rest.total amount := rfl

/-- What is counted for steps of known costs. -/
theorem charge_eq {read : Step.Reader} {ops values : Step → Nat}
    (h : ∀ s ∈ schedule, ∃ k, s.cost read = .ok k ∧ k.ops = UInt64.ofNat (ops s) ∧
      k.mem = UInt64.ofNat (4 * values s)) (c : Counters) :
    let counted := schedule.charge read c
    counted.kernels = c.kernels + UInt64.ofNat schedule.length ∧
      counted.ops = c.ops + UInt64.ofNat (schedule.total ops) ∧
      counted.mem = c.mem + UInt64.ofNat (4 * schedule.total values) := by
  induction schedule generalizing c with
  | nil => exact ⟨(UInt64.add_zero _).symm, (UInt64.add_zero _).symm, (UInt64.add_zero _).symm⟩
  | cons s rest ih =>
    obtain ⟨⟨k, hk, hops, hmem⟩, hrest⟩ := List.forall_mem_cons.mp h
    have hcharge : charge (s :: rest) read c = charge rest read (c.record k) := by
      simp only [charge, List.foldl_cons, hk]
    obtain ⟨ihkernels, ihops, ihmem⟩ := ih hrest (c.record k)
    rw [hcharge]
    refine ⟨?_, ?_, ?_⟩
    · rw [ihkernels, List.length_cons, Nat.add_comm, UInt64.ofNat_add, ← UInt64.add_assoc]
      rfl
    · rw [ihops, total_cons, UInt64.ofNat_add, ← UInt64.add_assoc, ← hops]
      rfl
    · rw [ihmem, total_cons, Nat.mul_add, UInt64.ofNat_add, ← UInt64.add_assoc, ← hmem]
      rfl

/-- There are no more steps that write different buffers than there are ids. -/
theorem WellOrdered.length_le (hw : schedule.WellOrdered) : schedule.length ≤ UInt32.size := by
  have hindex : Function.Injective BufferId.index := fun _ _ => BufferId.ext_index
  have hsub : schedule.outputs.map BufferId.index ⊆ List.range UInt32.size := by
    intro i hi
    obtain ⟨x, -, rfl⟩ := List.mem_map.mp hi
    exact List.mem_range.mpr x.index_lt
  have hle := (List.Nodup.subperm (hw.distinct.map hindex) hsub).length_le
  rwa [List.length_map, outputs, List.length_map, List.length_range] at hle

end Schedule

/-! ## Plans -/

/-- **An execution that ends well** ends in a solution of the schedule, and has counted what the
steps of the dynamic half cost there. -/
theorem Plan.solution_of_execute {p : Plan} {schedule : Schedule} {roots : IdSet} {mask : DebugMask}
    {m : Machine} {c : Counters} (hw : schedule.WellOrdered)
    (hp : ofSchedule schedule roots mask = .ok p) (h : (p.execute m c).failure? = none) :
    schedule.Solution m (p.execute m c).last.engine ∧
      (p.execute m c).last.counters =
        p.halves.dynamic.charge (p.execute m c).last.engine.read .zero := by
  have hstop : (p.execute m c).last.stop = none := Option.map_eq_none_iff.mp h
  cases hstatic : (p.runPhase .static m c).stop with
  | some why =>
    rw [execute_of_stop hstatic] at hstop
    cases hstatic.symm.trans hstop
  | none =>
    rw [execute_of_none hstatic] at hstop ⊢
    have hfirst := solution_of_runPhase hw hp hstatic
    have hsecond : p.halves.dynamic.Solution _ _ := solution_of_runPhase hw hp hstop
    have hordered := hw.sublist (steps_sublist hp .dynamic)
    refine ⟨?_, congrArg Outcome.counters (Schedule.runFrom_of_solution hordered hsecond .zero 0)⟩
    obtain ⟨-, rfl⟩ := ofSchedule_eq_ok.mp hp
    exact ((Schedule.solution_append_iff (hw.split roots)).mpr ⟨_, hfirst, hsecond⟩).perm
      (Schedule.split_perm schedule _)

/-! ## Graphs -/

namespace Graph

variable {g : Graph} {outputs operands : List BufferId} {shapes : List Shape} {mask : DebugMask}
  {p : Plan} {schedule : Schedule} {m m' : Machine} {c : Counters} {s : Step} {x : BufferId}

/-- The shapes of some nodes, once for each time that a node occurs. -/
def shapesOf (g : Graph) (xs : List BufferId) : List Shape :=
  xs.filterMap fun x => (g.shape x).toOption

/-- The arithmetic operations of a step, by the shapes of the nodes. -/
def work (g : Graph) (s : Step) : Nat := s.op.work (g.shapesOf s.operands) s.shape

/-- The values that a step writes, and those of each occurrence of an operand. -/
def traffic (g : Graph) (s : Step) : Nat :=
  s.shape.count + Shape.countAll (g.shapesOf s.operands)

theorem Shaped.shapesOf_eq (h : g.Shaped operands shapes) : g.shapesOf operands = shapes := by
  induction h with
  | nil => rfl
  | cons hhead _ ih =>
    unfold shapesOf
    rw [List.filterMap_cons, toOption_eq_some.mpr hhead]
    exact congrArg _ ih

/-- **A solution holds every needed node in its shape**, where the leaves were held so. -/
theorem Scheduled.holds (hg : g.Built) (hout : ∀ x ∈ outputs, (g.node? x).isSome)
    (h : g.Scheduled outputs schedule) (hleaf : ∀ x, g.isLeaf x → g.Holds m x)
    (hm : schedule.Solution m m') (hx : g.Needed outputs x) : g.Holds m' x := by
  cases hs : g.step? x with
  | none =>
    obtain ⟨shape, b, hshape, hb, hfits⟩ := hleaf x (hx.isLeaf hg hout hs)
    exact ⟨shape, b, hshape, (hm.frame x (h.not_mem_outputs hs)).trans hb, hfits⟩
  | some s =>
    obtain ⟨rfl, hnode⟩ := step?_eq_some.mp hs
    obtain ⟨b, k, hgives, hb⟩ := hm.gives s (h.mem_iff_step?.mpr ⟨hx, hs⟩)
    -- a step stores the number of values that its own shape asks for
    obtain ⟨-, hsize, hshape, -⟩ := Step.outcome_eq_ok.mp (hgives m.generator)
    exact ⟨s.shape, b, shape_eq_ok.mpr ⟨_, hnode, rfl⟩, hb, hshape.symm, Shape.count_of_size hsize⟩

/-- The cost of a step in a solution is a matter of the shapes of nodes. -/
theorem Scheduled.exists_cost (hg : g.Built) (hout : ∀ x ∈ outputs, (g.node? x).isSome)
    (h : g.Scheduled outputs schedule) (hleaf : ∀ x, g.isLeaf x → g.Holds m x)
    (hm : schedule.Solution m m') (hs : s ∈ schedule) :
    ∃ k, s.cost m'.read = .ok k ∧ k.ops = UInt64.ofNat (g.work s) ∧
      k.mem = UInt64.ofNat (4 * g.traffic s) := by
  obtain ⟨b, k, hgives, -⟩ := hm.gives s hs
  have hcost := hgives.cost m.generator
  obtain ⟨-, hnode⟩ := (h.mem_iff s).mp hs
  obtain ⟨shapes, hshapes, hmakes⟩ := hg.makes hnode
  have hheld : Step.Held m'.read s.operands shapes :=
    hshapes.held fun x hx => h.holds hg hout hleaf hm (h.needed_operand hs hx)
  refine ⟨k, hcost, ?_⟩
  rw [work, traffic, hshapes.shapesOf_eq]
  exact Step.cost_of_held hmakes hheld hcost

/-- **What is counted is a matter of the shapes of the graph.** When a machine holds every leaf of a
built graph in its shape, with any values, and executing a plan of the graph ends well, then the
number of dynamic steps was counted, the operations that the shapes of the nodes ask for in them,
and four bytes for each value that they write or read, an operand being read as often as it occurs.
Operations and bytes are counted modulo 2^64. Neither what was counted before nor what the static
half costs is in the result, nor does it matter what else was held. -/
theorem Built.execute_counts (hg : g.Built) (hp : g.compile outputs mask = .ok p)
    (hleaf : ∀ x, g.isLeaf x → g.Holds m x) (h : (p.execute m c).failure? = none) :
    let counted := (p.execute m c).last.counters
    counted.kernels.toNat = p.halves.dynamic.length ∧
      counted.ops = UInt64.ofNat (p.halves.dynamic.total g.work) ∧
      counted.mem = UInt64.ofNat (4 * p.halves.dynamic.total g.traffic) := by
  intro counted
  obtain ⟨schedule, hs, hplan⟩ := hg.scheduled_of_compile hp
  have hout : ∀ x ∈ outputs, (g.node? x).isSome := fun x hx => node_of_compile hp hx
  have hsub : p.halves.dynamic.Sublist schedule := Plan.steps_sublist hplan .dynamic
  obtain ⟨hm, (hcounted : counted = _)⟩ := Plan.solution_of_execute hs.ordered hplan h
  obtain ⟨hkernels, hops, hmem⟩ := Schedule.charge_eq
    (fun s hmem => hs.exists_cost hg hout hleaf hm (hsub.subset hmem)) .zero
  rw [← hcounted] at hkernels hops hmem
  refine ⟨?_, hops.trans (UInt64.zero_add _), hmem.trans (UInt64.zero_add _)⟩
  have hle := (hs.ordered.sublist hsub).length_le
  rw [hkernels, Counters.zero, UInt64.zero_add]
  exact UInt64.toNat_ofNat_of_lt (Nat.lt_of_le_of_lt hle (by decide))

/-- A product of matrices, its square as a product of two equal operands, a row that is repeated to
be added to it, and the sums of the rows. The row is computed in the static half. The machine holds
a buffer of another shape for the product, and something was counted before. -/
theorem execute_counts_layer :
    let x := BufferId.ofNat
    let g := Graph.empty.after [.input "x" [2, 3], .weight "w" [3, 2] #[1, 2, 3, 4, 5, 6],
      .pushShaped "b" (.fill 1) [] [2], .push "y" .matmul [x 0, x 1],
      .push "q" (.binary .mul) [x 3, x 3], .push "z" (.binary .add) [x 2, x 4],
      .push "s" (.reduce .sum) [x 5]]
    let m := (((Machine.new 0).put (x 0) ⟨[2, 3], #[6, 5, 4, 3, 2, 1]⟩).put (x 1)
      ⟨[3, 2], #[1, 2, 3, 4, 5, 6]⟩).put (x 3) ⟨[1], #[9]⟩
    let c : Counters := ⟨7, 8, 9, 0⟩
    g.Built ∧ (∀ y, g.isLeaf y → g.Holds m y) ∧
      ∃ p, g.compile [x 6] {} = .ok p ∧ (p.execute m c).failure? = none ∧
        p.halves.independent.length = 1 ∧
        (p.execute m c).last.counters.kernels.toNat = 4 ∧
        (p.execute m c).last.counters.ops = 24 + 4 + 4 + 4 ∧
        (p.execute m c).last.counters.mem = 4 * ((4 + 12) + (4 + 8) + (4 + 6) + (2 + 4)) := by
  intro x g m c
  have hg : g.Built := Built.empty.after _
  have hleaf : ∀ y, g.isLeaf y → g.Holds m y := by
    have hleaves : ∀ y ∈ g.ids, g.isLeaf y → y = x 0 ∨ y = x 1 := by decide +kernel
    intro y hy
    obtain ⟨n, hn⟩ : ∃ n, g.node? y = some n := by
      rcases isLeaf_cases hy with ⟨shape, hn⟩ | ⟨shape, hn⟩ <;> exact ⟨_, hn⟩
    rcases hleaves y (mem_ids hn) hy with rfl | rfl
    · exact ⟨[2, 3], _, toOption_eq_some.mp (by decide +kernel), rfl, rfl, rfl⟩
    · exact ⟨[3, 2], _, toOption_eq_some.mp (by decide +kernel), rfl, rfl, rfl⟩
  let schedule : Schedule := [⟨.fill 1, x 2, [], [2]⟩, ⟨.matmul, x 3, [x 0, x 1], [2, 2]⟩,
    ⟨.binary .mul, x 4, [x 3, x 3], [2, 2]⟩, ⟨.binary .add, x 5, [x 2, x 4], [2, 2]⟩,
    ⟨.reduce .sum, x 6, [x 5], [2]⟩]
  have hschedule : g.schedule [x 6] = .ok schedule := by
    have hnodes : g.nodes = #[.input [2, 3], .weight [3, 2], .apply (.fill 1) [] [2],
        .apply .matmul [x 0, x 1] [2, 2], .apply (.binary .mul) [x 3, x 3] [2, 2],
        .apply (.binary .add) [x 2, x 4] [2, 2], .apply (.reduce .sum) [x 5] [2]] := by
      decide +kernel
    obtain ⟨nodes, labels, names, initializers, wanted⟩ := g
    cases hnodes
    unfold schedule x
    cbv
  let p : Plan :=
    ⟨schedule.split (schedule.dependents g.roots), schedule.dependents g.roots, {}⟩
  have hp : g.compile [x 6] {} = .ok p :=
    compile_eq_ok.mpr ⟨schedule, hschedule, Plan.ofSchedule_eq_ok.mpr ⟨by decide, rfl⟩⟩
  have hrun : (p.execute m c).failure? = none := by decide +kernel
  obtain ⟨hkernels, hops, hmem⟩ := hg.execute_counts hp hleaf hrun
  refine ⟨hg, hleaf, p, hp, hrun, by decide +kernel, ?_, ?_, ?_⟩
  · rw [hkernels]
    decide +kernel
  · rw [hops]
    decide +kernel
  · rw [hmem]
    decide +kernel

end Graph

end Staging
