import Staging.Proofs.Draws
import Staging.Proofs.Typed

/-!
# Accepted graphs run

Where no declared shape has an empty axis, what building a graph has checked is enough to run it.
The weights can be stored (`Graph.Built.withWeights_typed`), and so can the random inputs
(`Graph.Built.randomInputs_ends`), which makes a typed machine that holds all leaves. From there a
plan runs without an error, and every output has the shape of its node
(`Graph.Built.execute_fits`).

**What it does not establish.** Shapes with an empty axis are left out, since a step on arrays
without values may be accepted by a graph and refused by a machine. A number that is too large can
still end an execution; it takes a node with `2 ^ 31` values or more (`Graph.Large`), and where
there is one it may happen or not.
-/

namespace Staging

namespace Graph

variable {g : Graph} {outputs : List BufferId}

/-! ## Leaves -/

/-- Values that are kept for weights are stored as buffers of the shapes of their nodes. -/
theorem foldlM_insertWeight {values : List (BufferId × Array Scalar)}
    (h : ∀ e ∈ values, ∃ shape, g.node? e.1 = some (.weight shape) ∧ shape.size = .ok e.2.size) :
    ∃ buffers : List (BufferId × Buffer), buffers.map Prod.fst = values.map Prod.fst ∧
      (∀ e ∈ buffers, g.shape e.1 = .ok e.2.shape ∧ e.2.shape.size = .ok e.2.data.size) ∧
      ∀ m, values.foldlM (Machine.insertWeight g) m = Machine.insertAll m buffers := by
  induction values with
  | nil => exact ⟨[], rfl, fun _ he => (nomatch he), fun _ => rfl⟩
  | cons e rest ih =>
    obtain ⟨x, data⟩ := e
    obtain ⟨⟨shape, hx, hsize⟩, hrest⟩ := List.forall_mem_cons.mp h
    obtain ⟨buffers, hids, hfit, hfold⟩ := ih hrest
    have hshape : g.shape x = .ok shape := shape_eq_ok.mpr ⟨_, hx, rfl⟩
    refine ⟨(x, ⟨shape, data⟩) :: buffers, by rw [List.map_cons, List.map_cons, hids],
      List.forall_mem_cons.mpr ⟨⟨hshape, hsize⟩, hfit⟩, fun m => ?_⟩
    have hstore : Machine.insertWeight g m (x, data) = (Machine.insert x ⟨shape, data⟩).exec m := by
      rw [Machine.insertWeight, weight, hshape]
      rfl
    rw [List.foldlM_cons, Machine.insertAll, List.foldlM_cons, hstore]
    exact congrArg _ (funext hfold)

/-- A machine that holds the weights is typed. -/
theorem Built.withWeights_typed (hg : g.Built) (hids : g.size ≤ UInt32.size) (seed : UInt64) :
    ∃ m, Machine.withWeights g seed = .ok m ∧ g.Typed m ∧
      ∀ x shape, g.node? x = some (.weight shape) → (m.read x).isSome := by
  have hempty : g.Typed (Machine.new seed) := by
    intro x b hb
    rw [Machine.new, Machine.read, Store.read_empty] at hb
    cases hb
  have hvalues := hg.initialized hids
  obtain ⟨buffers, hlisted, hfit, hfold⟩ := foldlM_insertWeight fun e he =>
    hvalues.size_eq (Std.ExtTreeMap.mem_toList_iff_getElem?_eq_some.mp he)
  obtain ⟨m, hm, htyped, hheld⟩ := hempty.insertAll hfit
  refine ⟨m, (hfold _).trans hm, htyped, fun x shape hx => hheld x (.inl ?_)⟩
  obtain ⟨data, hdata⟩ := hvalues.exists_values.mpr ⟨shape, hx⟩
  rw [hlisted]
  exact List.mem_map_of_mem (Std.ExtTreeMap.mem_toList_iff_getElem?_eq_some.mpr hdata)

/-- **Random inputs** fit their nodes, unless a number was too large. -/
theorem Built.randomInputs_ends (hg : g.Built) (hids : g.size ≤ UInt32.size)
    (hdecl : g.DeclaresNonzero) (seed : UInt64) (std : Scalar) :
    Ends (Fault.Overflow g.Large)
      (fun inputs =>
        (∀ e ∈ inputs, g.shape e.1 = .ok e.2.shape ∧ e.2.shape.size = .ok e.2.data.size) ∧
          ∀ x, g.IsInput x → x ∈ inputs.map Prod.fst)
      (g.randomInputs seed std) := by
  have hinputs : ∀ e ∈ g.inputs, g.shape e.1 = .ok e.2 := by
    rintro ⟨x, shape⟩ he
    exact shape_eq_ok.mpr ⟨_, (mem_numbered hids).mp (mem_inputs.mp he), rfl⟩
  have hsmall : ∀ e ∈ g.inputs, 0 ∉ e.2 ∧ Shape.count e.2 < 1 <<< 60 ∨ g.Large := by
    intro e he
    refine (small_or_large (hinputs e he)).imp_left fun hlt => ⟨?_, Nat.lt_trans hlt (by decide)⟩
    exact hg.nonzero hdecl e.1 e.2 (hinputs e he)
  have hbuffers := Generator.buffers_ends std hsmall (Generator.ofSeed seed)
  refine hbuffers.imp fun inputs ⟨hlisted, hsizes⟩ => ⟨fun e he => ⟨?_, hsizes e he⟩, ?_⟩
  · exact hinputs _ (hlisted ▸ List.mem_map_of_mem he)
  · rintro x ⟨shape, hx⟩
    have hmem := mem_inputs.mpr (mem_numbered_of_node? hx)
    rw [← hlisted] at hmem
    obtain ⟨e, he, heq⟩ := List.mem_map.mp hmem
    exact List.mem_map.mpr ⟨e, he, congrArg Prod.fst heq⟩

/-! ## Plans -/

/-- **Accepted graphs run.** Where no declared shape has an empty axis and the outputs need no load,
the graph has a plan, its weights and random values for its inputs can be stored, and executing the
plan is no error. Afterwards every output, whether it is computed or not, is held in the shape of
its node, with as many values as that counts.

What may stop it is a number that is too large, and only if some node has 2^31 values or more. Ids
have to be enough for all nodes. -/
theorem Built.execute_fits (hg : g.Built) (hids : g.size ≤ UInt32.size) (hdecl : g.DeclaresNonzero)
    (hout : ∀ x ∈ outputs, (g.node? x).isSome) (hload : g.LoadFree outputs) (mask : DebugMask)
    (seed seed' : UInt64) (std : Scalar) :
    ∃ p m, g.compile outputs mask = .ok p ∧ Machine.withWeights g seed = .ok m ∧
      match g.randomInputs seed' std with
      | .error f => f.Overflow g.Large
      | .ok inputs =>
        ∃ m', m.insertAll inputs = .ok m' ∧ ∀ c,
          match (p.execute m' c).failure? with
          | some why => why.Overflow g.Large
          | none =>
            ∀ x ∈ outputs, ∃ shape b, g.shape x = .ok shape ∧
              (p.execute m' c).last.engine.read x = some b ∧ b.shape = shape ∧
              b.data.size = shape.count := by
  obtain ⟨p, hp⟩ := hg.compile_ok hout hload mask
  obtain ⟨schedule, hschedule, hplan⟩ := hg.scheduled_of_compile hp
  obtain ⟨m, hm, htyped, hweights⟩ := hg.withWeights_typed hids seed
  refine ⟨p, m, hp, hm, ?_⟩
  have hrandom := hg.randomInputs_ends hids hdecl seed' std
  cases hinputs : g.randomInputs seed' std with
  | error f =>
    rw [hinputs] at hrandom
    exact hrandom
  | ok inputs =>
    rw [hinputs] at hrandom
    obtain ⟨hfit, hall⟩ := hrandom
    obtain ⟨m', hm', htyped', hheld⟩ := htyped.insertAll hfit
    refine ⟨m', hm', fun c => ?_⟩
    have hleaf : ∀ x, g.isLeaf x → (m'.read x).isSome := by
      intro x hx
      rcases isLeaf_cases hx with hinput | ⟨shape, hweight⟩
      · exact hheld x (.inl (hall x hinput))
      · exact hheld x (.inr (hweights x shape hweight))
    have hrun := hg.execute_typed hdecl hout hschedule hplan htyped' hleaf c
    unfold Plan.Execution.failure? Plan.phaseFailure?
    cases hstop : (p.execute m' c).last.stop with
    | some why => exact (hrun.stop why hstop).map _
    | none =>
      intro x hx
      have hheld : x ∈ schedule.outputs ∨ (m'.read x).isSome :=
        (hschedule.leaf_or_output hg hout (.output hx)).symm.imp_right (hleaf x)
      obtain ⟨b, hb⟩ := Option.isSome_iff_exists.mp (hrun.held hstop x hheld)
      obtain ⟨shape, hshape, hfits⟩ := hrun.typed x b hb
      exact ⟨shape, b, hshape, hb, hfits⟩

/-- A matrix of inputs times a weight, plus a row that is repeated, summed along the rows; the
outputs are the sums, the inputs and the weight. No node is large, so nothing stops the run. -/
theorem execute_fits_layer :
    let x := BufferId.ofNat
    let g := Graph.empty.after [.input "x" [2, 3], .weight "w" [3, 2] #[1, 2, 3, 4, 5, 6],
      .pushShaped "b" (.fill 1) [] [2], .push "y" .matmul [x 0, x 1],
      .push "z" (.binary .add) [x 2, x 3], .push "s" (.reduce .sum) [x 4]]
    let outputs := [x 5, x 0, x 1]
    g.Built ∧ g.size ≤ UInt32.size ∧ g.DeclaresNonzero ∧ (∀ y ∈ outputs, (g.node? y).isSome) ∧
      g.LoadFree outputs ∧ g.shape (x 5) = .ok [2] ∧
      ∃ p m inputs m', g.compile outputs {} = .ok p ∧ Machine.withWeights g 1 = .ok m ∧
        g.randomInputs 2 1 = .ok inputs ∧ m.insertAll inputs = .ok m' ∧
        (p.execute m' .zero).failure? = none ∧
        ∃ b, (p.execute m' .zero).last.engine.read (x 5) = some b ∧ b.shape = [2] ∧
          b.data.size = 2 := by
  intro x g outputs
  have hg : g.Built := Built.empty.after _
  have hids : g.size ≤ UInt32.size := by decide +kernel
  have hnodes : ∀ y ∈ g.ids, ∀ n ∈ g.node? y,
      (n.operands = [] → 0 ∉ n.shape) ∧ n.shape.count < 1 <<< 31 := by decide +kernel
  have hdecl : g.DeclaresNonzero := fun y n hn => (hnodes y (mem_ids hn) n hn).1
  have hout : ∀ y ∈ outputs, (g.node? y).isSome := by decide +kernel
  have hload : g.LoadFree outputs := loadFree_of_ids (by decide +kernel) outputs
  have hshape : g.shape (x 5) = .ok [2] := toOption_eq_some.mp (by decide +kernel)
  have hsmall : ¬ g.Large := by
    rintro ⟨y, shape, hy, hle⟩
    obtain ⟨n, hn, rfl⟩ := shape_eq_ok.mp hy
    exact Nat.not_lt.mpr hle (hnodes y (mem_ids hn) n hn).2
  refine ⟨hg, hids, hdecl, hout, hload, hshape, ?_⟩
  have hfits := hg.execute_fits hids hdecl hout hload {} 1 2 1
  cases hinputs : g.randomInputs 2 1 with
  | error f =>
    rw [hinputs] at hfits
    obtain ⟨p, m, -, -, hlarge⟩ := hfits
    exact absurd hlarge.2 hsmall
  | ok inputs =>
    rw [hinputs] at hfits
    obtain ⟨p, m, hp, hm, m', hm', hrun⟩ := hfits
    have hrun := hrun .zero
    refine ⟨p, m, inputs, m', hp, hm, rfl, hm', ?_⟩
    cases hfail : (p.execute m' .zero).failure? with
    | some why =>
      rw [hfail] at hrun
      cases why with
      | error e => exact hrun.elim
      | fault f => exact absurd hrun.2 hsmall
    | none =>
      rw [hfail] at hrun
      obtain ⟨shape, b, hb, hread, hbshape, hbsize⟩ := hrun (x 5) List.mem_cons_self
      cases hshape.symm.trans hb
      exact ⟨rfl, b, hread, hbshape, hbsize⟩

end Graph

end Staging
