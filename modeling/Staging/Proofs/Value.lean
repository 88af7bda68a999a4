import Staging.Proofs.Order
import Staging.Proofs.Run

/-!
# The value of a node

The value of a node is defined by recursion over the graph, without a schedule: a leaf has the
buffer that a machine holds for it, and a computed node has what its operation makes of the values
of its operands (`Graph.value`). Executing a schedule computes the graph
(`Graph.Built.run_computes`): a run of the schedule of some outputs ends well when every computed
node that they need has a value and the numbers behind it fit into words, and then the machine holds
the values and is otherwise as it was.

Both directions go through the solutions of the schedule. A solution holds the value of every node
that is needed (`Scheduled.read_eq_value`), and writing the values into the machine makes one
(`Scheduled.solution_of_values`). What the machine held for computed nodes before plays no part.

**What it does not establish.** Values know nothing of words. A machine forms the product of the
dimensions of every step and counts its operations and bytes, and stops where one of these numbers
does not fit (`Step.Overflows`); so a node may have a value that no run reaches
(`Graph.run_stops_for_overflowing_shape`). How large a graph has to be for that is not asked here,
but in `Proofs/Typed`.
-/

namespace Staging

/-! ## Writing many buffers -/

namespace Machine

/-- The machine with the buffers of some ids replaced, where there is one to put there. -/
def replace (m : Machine) (xs : List BufferId) (read : Step.Reader) : Machine :=
  { m with store := xs.foldl (fun st x => (read x).elim st (st.insert x)) m.store }

theorem read_replace {m : Machine} {xs : List BufferId} {read : Step.Reader}
    (h : ∀ x ∈ xs, (read x).isSome) (y : BufferId) :
    (m.replace xs read).read y = if y ∈ xs then read y else m.read y := by
  suffices hstore : ∀ st : Store,
      (xs.foldl (fun st x => (read x).elim st (st.insert x)) st).read y =
        if y ∈ xs then read y else st.read y from hstore m.store
  induction xs with
  | nil => exact fun st => rfl
  | cons x xs ih =>
    intro st
    obtain ⟨b, hb⟩ := Option.isSome_iff_exists.mp (h x List.mem_cons_self)
    rw [List.foldl_cons, ih (fun z hz => h z (List.mem_cons_of_mem x hz)), hb, Option.elim_some,
      Store.read_insert]
    by_cases hyx : y = x
    · simp [hyx, hb]
    · simp [hyx]

end Machine

namespace Graph

variable {g : Graph} {outputs : List BufferId} {schedule : Schedule} {m m' : Machine}
  {x y : BufferId} {s : Step} {b : Buffer}

/-! ## Values -/

/-- Inputs and weights. -/
def isLeaf (g : Graph) (x : BufferId) : Bool :=
  match g.node? x with
  | some (.input _) | some (.weight _) => true
  | _ => false

/-- The value of a node over the buffers of a machine. A leaf has what is held for it. A computed
node has what its operation makes of the values of its operands, in its own shape; it has none when
the operation can not be evaluated on them, or makes another number of values than the shape counts.
-/
def value (g : Graph) (m : Machine) (x : BufferId) : Option Buffer :=
  match g.node? x with
  | none => none
  | some (.input _) | some (.weight _) => m.read x
  | some (.apply op operands shape) => do
    let s : Step := ⟨op, x, operands, shape⟩
    -- the operands of a node of a built graph come before it, see `Built.value_eq_some`
    let read y := if y.index < x.index then g.value m y else none
    let (data, _) ← (s.evaluate read m.generator).toOption
    if data.size = shape.count then some ⟨shape, data⟩ else none
termination_by x.index

theorem value_of_isLeaf (hx : g.isLeaf x) : g.value m x = m.read x := by
  unfold isLeaf at hx
  rw [value]
  split at hx
  next h => rw [h]
  next h => rw [h]
  next => cases hx

/-- A computed node has the value that its step makes of the values of its operands. -/
theorem Built.value_eq_some (hg : g.Built) (hs : g.step? x = some s) :
    g.value m x = some b ↔
      (∃ gen, s.evaluate (g.value m) m.generator = .ok (b.data, gen)) ∧
        b.data.size = s.shape.count ∧ b.shape = s.shape := by
  obtain ⟨rfl, hx⟩ := step?_eq_some.mp hs
  have hread : ∀ y ∈ s.operands,
      (if y.index < s.output.index then g.value m y else none) = g.value m y :=
    fun y hy => if_pos (hg.operand_lt hx hy)
  rw [value, hx]
  simp only [Step.evaluate_congr hread]
  constructor
  · intro h
    obtain ⟨⟨data, gen⟩, hdata, h⟩ := Option.bind_eq_some_iff.mp h
    simp only [Option.ite_none_right_eq_some, Option.some.injEq] at h
    obtain ⟨hsize, rfl⟩ := h
    exact ⟨⟨gen, toOption_eq_some.mp hdata⟩, hsize, rfl⟩
  · rintro ⟨⟨gen, hdata⟩, hsize, hshape⟩
    refine Option.bind_eq_some_iff.mpr ⟨(b.data, gen), toOption_eq_some.mpr hdata, ?_⟩
    rw [if_pos hsize, ← hshape]

/-- Without a load, the value is what the step computes. -/
theorem Built.value_eq_some_of_pure (hg : g.Built) (hs : g.step? x = some s)
    (hpure : s.op.isLoad = false) :
    g.value m x = some b ↔ s.Computes (g.value m) b := by
  rw [hg.value_eq_some hs]
  constructor
  · rintro ⟨⟨gen, hdata⟩, hsize, hshape⟩
    refine ⟨fun gen' => ?_, hsize, hshape⟩
    rw [Step.evaluate_generator hpure (g.value m) gen' m.generator, hdata]
    rfl
  · intro h
    exact ⟨⟨m.generator, h.evaluate m.generator⟩, h.size, h.shape⟩

/-! ## Needed nodes -/

/-- No load is among the nodes that some outputs need. -/
def LoadFree (g : Graph) (outputs : List BufferId) : Prop :=
  ∀ x, g.Needed outputs x → ∀ s, g.step? x = some s → s.op.isLoad = false

/-- A graph without loads needs none. -/
theorem loadFree_of_ids (h : ∀ x ∈ g.ids, ∀ s ∈ g.step? x, s.op.isLoad = false)
    (outputs : List BufferId) : g.LoadFree outputs :=
  fun x _ s hs => h x (mem_ids (step?_eq_some.mp hs).2) s hs

/-- What is needed belongs to every list that holds the outputs and, with a node, its operands. -/
theorem Needed.mem_of_closed {nodes : List BufferId} (hout : outputs ⊆ nodes)
    (hclosed : ∀ x ∈ nodes, g.operands x ⊆ nodes) (hx : g.Needed outputs x) : x ∈ nodes := by
  induction hx with
  | output hx => exact hout hx
  | operand _ hy ih => exact hclosed _ ih hy

theorem operands_of_step? (hs : g.step? x = some s) : g.operands x = s.operands :=
  operands_of_node? (step?_eq_some.mp hs).2

/-- With a step, its operands are needed. -/
theorem Needed.step_operand (hx : g.Needed outputs x) (hs : g.step? x = some s)
    (hy : y ∈ s.operands) : g.Needed outputs y :=
  .operand hx (operands_of_step? hs ▸ hy)

/-- Only computed nodes have operands. -/
theorem exists_step_of_mem_operands (h : y ∈ g.operands x) :
    ∃ s, g.step? x = some s ∧ y ∈ s.operands := by
  cases hnode : g.node? x with
  | none => rw [operands, hnode] at h; cases h
  | some n =>
    rw [operands_of_node? hnode] at h
    cases n with
    | input shape => cases h
    | weight shape => cases h
    | apply op operands shape => exact ⟨⟨op, x, operands, shape⟩, step?_eq_some.mpr ⟨rfl, hnode⟩, h⟩

/-- What holds of a node whenever it holds of its operands holds of every node. -/
theorem Built.induction_on_operands (hg : g.Built) {P : BufferId → Prop}
    (step : ∀ x, (∀ y ∈ g.operands x, P y) → P x) (x : BufferId) : P x := by
  induction hk : x.index using Nat.strongRecOn generalizing x with
  | ind k ih => exact step x fun y hy => ih y.index (hk ▸ hg.operands_lt hy) y rfl

/-- Every computed node that the outputs need has a value. -/
def HasValues (g : Graph) (outputs : List BufferId) (m : Machine) : Prop :=
  ∀ x, g.Needed outputs x → (g.step? x).isSome → (g.value m x).isSome

/-- No step of a node that the outputs need computes a number that does not fit into a word. -/
def CostsFit (g : Graph) (outputs : List BufferId) (m : Machine) : Prop :=
  ∀ x, g.Needed outputs x → ∀ s, g.step? x = some s → ¬ s.Overflows (g.value m)

section Needed

variable (hg : g.Built) (hout : ∀ x ∈ outputs, (g.node? x).isSome)
include hg hout

/-- What is needed is a node. -/
theorem Needed.node (hx : g.Needed outputs x) : ∃ n, g.node? x = some n := by
  induction hx with
  | output hx => exact Option.isSome_iff_exists.mp (hout _ hx)
  | operand _ hy ih =>
    obtain ⟨n, hn⟩ := ih
    exact hg.operand_node hn (operands_of_node? hn ▸ hy)

/-- What is needed and not computed is a leaf. -/
theorem Needed.isLeaf (hx : g.Needed outputs x) (hs : g.step? x = none) : g.isLeaf x := by
  obtain ⟨n, hn⟩ := hx.node hg hout
  cases n with
  | input shape => simp [Graph.isLeaf, hn]
  | weight shape => simp [Graph.isLeaf, hn]
  | apply op operands shape => simp [step?, hn] at hs

variable (hload : g.LoadFree outputs)
include hload

/-- The values of needed nodes are a matter of the leaves alone, and not of the generator. -/
theorem value_congr (hleaf : ∀ x, g.isLeaf x → m.read x = m'.read x) :
    g.Needed outputs x → g.value m x = g.value m' x := by
  induction x using hg.induction_on_operands with | step x ih => ?_
  intro hx
  cases hs : g.step? x with
  | none =>
    have hx := hx.isLeaf hg hout hs
    rw [value_of_isLeaf hx, value_of_isLeaf hx, hleaf x hx]
  | some s =>
    have hread : ∀ y ∈ s.operands, g.value m y = g.value m' y := fun y hy =>
      ih y (operands_of_step? hs ▸ hy) (hx.step_operand hs hy)
    ext b
    rw [hg.value_eq_some_of_pure hs (hload x hx s hs),
      hg.value_eq_some_of_pure hs (hload x hx s hs)]
    exact ⟨fun h => h.congr hread, fun h => h.congr fun y hy => (hread y hy).symm⟩

end Needed

/-! ## Solutions of the schedule -/

namespace Scheduled

theorem mem_iff_step? (h : g.Scheduled outputs schedule) :
    s ∈ schedule ↔ g.Needed outputs s.output ∧ g.step? s.output = some s := by
  rw [h.mem_iff s, step?_eq_some]
  simp

theorem needed_operand (h : g.Scheduled outputs schedule) (hs : s ∈ schedule)
    (hx : x ∈ s.operands) : g.Needed outputs x := by
  obtain ⟨hneeded, hstep⟩ := h.mem_iff_step?.mp hs
  exact hneeded.step_operand hstep hx

/-- The steps write the computed nodes that are needed. -/
theorem mem_outputs (h : g.Scheduled outputs schedule) :
    x ∈ schedule.outputs ↔ g.Needed outputs x ∧ (g.step? x).isSome := by
  constructor
  · intro hx
    obtain ⟨s, hs, rfl⟩ := List.mem_map.mp hx
    obtain ⟨hneeded, hstep⟩ := h.mem_iff_step?.mp hs
    exact ⟨hneeded, by rw [hstep]; rfl⟩
  · rintro ⟨hneeded, hstep⟩
    obtain ⟨s, hs⟩ := Option.isSome_iff_exists.mp hstep
    obtain ⟨rfl, -⟩ := step?_eq_some.mp hs
    exact List.mem_map_of_mem (h.mem_iff_step?.mpr ⟨hneeded, hs⟩)

/-- No step writes a node that is not computed. -/
theorem not_mem_outputs (h : g.Scheduled outputs schedule) (hs : g.step? x = none) :
    x ∉ schedule.outputs := by
  rw [h.mem_outputs, hs]
  exact fun hmem => nomatch hmem.2

theorem pure_of_loadFree (h : g.Scheduled outputs schedule) (hload : g.LoadFree outputs) :
    schedule.Pure :=
  fun s hs => hload s.output (h.mem_iff_step?.mp hs).1 s (h.mem_iff_step?.mp hs).2

/-- What is needed and not written by a step is a leaf, whose buffer is its value. -/
theorem read_of_not_written (hg : g.Built) (hout : ∀ x ∈ outputs, (g.node? x).isSome)
    (h : g.Scheduled outputs schedule) (hx : g.Needed outputs x)
    (hnot : x ∉ schedule.outputs) : m.read x = g.value m x := by
  have hs : g.step? x = none := by
    rw [h.mem_outputs, Option.isSome_iff_ne_none] at hnot
    exact Decidable.not_not.mp fun hs => hnot ⟨hx, hs⟩
  rw [value_of_isLeaf (hx.isLeaf hg hout hs)]

/-- A step whose output has a value computes it from the values of its operands. -/
theorem computes_of_hasValues (hg : g.Built) (hload : g.LoadFree outputs)
    (h : g.Scheduled outputs schedule) (hdef : g.HasValues outputs m) (hs : s ∈ schedule) :
    ∃ b, s.Computes (g.value m) b ∧ g.value m s.output = some b := by
  obtain ⟨hneeded, hstep⟩ := h.mem_iff_step?.mp hs
  obtain ⟨b, hb⟩ := Option.isSome_iff_exists.mp (hdef s.output hneeded (by rw [hstep]; rfl))
  exact ⟨b, (hg.value_eq_some_of_pure hstep (hload _ hneeded s hstep)).mp hb, hb⟩

variable (hg : g.Built) (hout : ∀ x ∈ outputs, (g.node? x).isSome) (hload : g.LoadFree outputs)
include hg hout hload

/-- **A solution holds the value of every node that is needed.** -/
theorem read_eq_value (h : g.Scheduled outputs schedule) (hm : schedule.Solution m m') :
    g.Needed outputs x → m'.read x = g.value m x := by
  induction x using hg.induction_on_operands with | step x ih => ?_
  intro hx
  cases hs : g.step? x with
  | none =>
    rw [value_of_isLeaf (hx.isLeaf hg hout hs), hm.frame x (h.not_mem_outputs hs)]
  | some s =>
    obtain ⟨rfl, -⟩ := step?_eq_some.mp hs
    obtain ⟨b, k, hgives, hb⟩ := hm.gives s (h.mem_iff_step?.mpr ⟨hx, hs⟩)
    have hread : ∀ y ∈ s.operands, m'.read y = g.value m y := fun y hy =>
      ih y (operands_of_step? hs ▸ hy) (hx.step_operand hs hy)
    rw [hb, eq_comm, hg.value_eq_some_of_pure hs (hload _ hx s hs)]
    exact hgives.computes.congr hread

/-- **The values of the computed nodes are a solution**, where all of them have one and no number is
too large. -/
theorem solution_of_values (h : g.Scheduled outputs schedule) (hdef : g.HasValues outputs m)
    (hfit : g.CostsFit outputs m) :
    schedule.Solution m (m.replace schedule.outputs (g.value m)) := by
  have hwritten : ∀ x ∈ schedule.outputs, (g.value m x).isSome :=
    fun x hx => hdef x (h.mem_outputs.mp hx).1 (h.mem_outputs.mp hx).2
  have hread : ∀ y, g.Needed outputs y →
      (m.replace schedule.outputs (g.value m)).read y = g.value m y := by
    intro y hy
    rw [Machine.read_replace hwritten]
    by_cases hmem : y ∈ schedule.outputs
    · rw [if_pos hmem]
    · rw [if_neg hmem, h.read_of_not_written hg hout hy hmem]
  refine ⟨fun s hs => ?_, fun x hx => by rw [Machine.read_replace hwritten, if_neg hx], rfl⟩
  obtain ⟨hneeded, hstep⟩ := h.mem_iff_step?.mp hs
  obtain ⟨b, hcomputes, hb⟩ := h.computes_of_hasValues hg hload hdef hs
  obtain ⟨k, hgives⟩ := Step.exists_gives_iff.mpr ⟨hcomputes, hfit s.output hneeded s hstep⟩
  refine ⟨b, k, hgives.congr fun y hy => ?_, by rw [hread _ hneeded, hb]⟩
  exact (hread y (h.needed_operand hs hy)).symm

/-- There is a solution exactly when every computed node that is needed has a value and no number is
too large. -/
theorem exists_solution_iff (h : g.Scheduled outputs schedule) :
    (∃ m', schedule.Solution m m') ↔ g.HasValues outputs m ∧ g.CostsFit outputs m := by
  constructor
  · rintro ⟨m', hm⟩
    refine ⟨fun x hx hs => ?_, fun x hx s hs => ?_⟩
    · rw [← h.read_eq_value hg hout hload hm hx]
      exact Option.isSome_iff_exists.mpr (hm.exists_read (.inl (h.mem_outputs.mpr ⟨hx, hs⟩)))
    · obtain ⟨rfl, -⟩ := step?_eq_some.mp hs
      obtain ⟨b, k, hgives, -⟩ := hm.gives s (h.mem_iff_step?.mpr ⟨hx, hs⟩)
      have hread : ∀ y ∈ s.operands, m'.read y = g.value m y := fun y hy =>
        h.read_eq_value hg hout hload hm (hx.step_operand hs hy)
      exact (Step.exists_gives_iff.mp ⟨k, hgives.congr hread⟩).2
  · rintro ⟨hdef, hfit⟩
    exact ⟨_, h.solution_of_values hg hout hload hdef hfit⟩

/-- Whether there is a solution is a matter of the leaves. -/
theorem exists_solution_congr (h : g.Scheduled outputs schedule)
    (hleaf : ∀ x, g.isLeaf x → m.read x = m'.read x) :
    (∃ m₁, schedule.Solution m m₁) ↔ ∃ m₁, schedule.Solution m' m₁ := by
  rw [h.exists_solution_iff hg hout hload, h.exists_solution_iff hg hout hload]
  refine and_congr ?_ ?_
  · exact forall₂_congr fun x hx => by rw [value_congr hg hout hload hleaf hx]
  · refine forall₄_congr fun x hx s hs => not_congr (Step.overflows_congr fun y hy => ?_)
    exact value_congr hg hout hload hleaf (hx.step_operand hs hy)

/-- Where all values are there, nothing stops a run but a number that is too large. -/
theorem stop_of_hasValues (h : g.Scheduled outputs schedule) (hdef : g.HasValues outputs m)
    (c : Counters) (n : Nat) :
    (Engine.runFrom schedule m c n).stop = none ∨
      (Engine.runFrom schedule m c n).stop = some (.fault .multiplyOverflow) := by
  refine Schedule.stop_of_computes h.ordered
    (fun s hs => h.computes_of_hasValues hg hload hdef hs) (fun s hs x hx hnot => ?_) c n
  exact h.read_of_not_written hg hout (h.needed_operand hs hx) hnot

/-- Two solutions from the same leaves hold the same for every node that is needed. -/
theorem read_congr (h : g.Scheduled outputs schedule)
    (hleaf : ∀ x, g.isLeaf x → m.read x = m'.read x) {m₁ m₂ : Machine}
    (h₁ : schedule.Solution m m₁) (h₂ : schedule.Solution m' m₂) (hx : g.Needed outputs x) :
    m₁.read x = m₂.read x := by
  rw [h.read_eq_value hg hout hload h₁ hx, h.read_eq_value hg hout hload h₂ hx,
    value_congr hg hout hload hleaf hx]

end Scheduled

/-! ## Running the schedule -/

/-- **Executing a schedule computes the graph.** For every built graph and all nodes as outputs that
need no load there is a schedule. From every machine, whatever it holds, a run that ends well shows
that every computed node that is needed has a value. Where all of them have one, the run ends well,
unless the product of the dimensions of a step, its operations or its bytes do not fit into a word;
the run stops at such a step, and there is no other way for it to stop. At a good end the machine
holds the value of each of the nodes, and for every other id what it held before. -/
theorem Built.run_computes (hg : g.Built) (hout : ∀ x ∈ outputs, (g.node? x).isSome)
    (hload : g.LoadFree outputs) :
    ∃ schedule, g.schedule outputs = .ok schedule ∧ ∀ (m : Machine) (c : Counters),
      let o := Engine.run schedule m c
      (o.stop = none ↔ g.HasValues outputs m ∧ g.CostsFit outputs m) ∧
        (g.HasValues outputs m → o.stop = none ∨ o.stop = some (.fault .multiplyOverflow)) ∧
        (o.stop = none → ∀ x,
          (g.Needed outputs x ∧ (g.step? x).isSome → o.engine.read x = g.value m x) ∧
            (¬ (g.Needed outputs x ∧ (g.step? x).isSome) → o.engine.read x = m.read x)) := by
  obtain ⟨schedule, hschedule, h⟩ := hg.scheduled hout
  refine ⟨schedule, hschedule, fun m c => ⟨?_, fun hdef => ?_, fun hstop x => ?_⟩⟩
  · exact (Schedule.runFrom_iff_solution h.ordered (h.pure_of_loadFree hload) c 0).trans
      (h.exists_solution_iff hg hout hload)
  · exact h.stop_of_hasValues hg hout hload hdef c 0
  · have hm := Schedule.solution_of_runFrom h.ordered (h.pure_of_loadFree hload) hstop
    refine ⟨fun hx => h.read_eq_value hg hout hload hm hx.1, fun hx => hm.frame x ?_⟩
    rwa [h.mem_outputs]

/-- A machine that holds stale buffers for the nodes to be computed, and a load that is not
needed. -/
theorem run_computes_stale :
    let x := BufferId.ofNat
    let g := Graph.empty.after [.input "x" [2], .weight "w" [] #[3],
      .pushShaped "r" (.load .random) [] [2], .push "y" (.binary .mul) [x 0, x 1],
      .push "z" (.binary .add) [x 3, x 0]]
    let m := (((Machine.new 0).put (x 0) ⟨[2], #[1, 2]⟩).put (x 1) ⟨[], #[3]⟩).put (x 3) ⟨[1], #[7]⟩
    g.Built ∧ (∀ y ∈ [x 4], (g.node? y).isSome) ∧ g.LoadFree [x 4] ∧
      ∃ schedule, g.schedule [x 4] = .ok schedule ∧ ∀ c,
        (Engine.run schedule m c).stop = none ∧
          (Engine.run schedule m c).engine.read (x 3) = g.value m (x 3) ∧
          (Engine.run schedule m c).engine.read (x 2) = none := by
  intro x g m
  have hg : g.Built := Built.empty.after _
  have hout : ∀ y ∈ [x 4], (g.node? y).isSome := by decide +kernel
  have hneeded : ∀ y, g.Needed [x 4] y → y ∈ [x 0, x 1, x 3, x 4] :=
    fun y => Needed.mem_of_closed (by decide +kernel) (by decide +kernel)
  have hload : g.LoadFree [x 4] := by
    have hpure : ∀ y ∈ [x 0, x 1, x 3, x 4], ∀ s ∈ g.step? y, s.op.isLoad = false := by
      decide +kernel
    exact fun y hy s hs => hpure y (hneeded y hy) s hs
  have hvalue : ∀ y ∈ [x 0, x 1, x 3, x 4], (g.value m y).isSome := by decide +kernel
  have hfit : ∀ y ∈ [x 0, x 1, x 3, x 4], ∀ s ∈ g.step? y, ¬ s.Overflows (g.value m) := by
    decide +kernel
  have hthree : g.Needed [x 4] (x 3) := .operand (.output List.mem_cons_self) (by decide +kernel)
  have htwo : ¬ g.Needed [x 4] (x 2) := fun h => absurd (hneeded _ h) (by decide +kernel)
  obtain ⟨schedule, hschedule, hrun⟩ := hg.run_computes hout hload
  refine ⟨hg, hout, hload, schedule, hschedule, fun c => ?_⟩
  obtain ⟨hends, -, hholds⟩ := hrun m c
  have hstop := hends.mpr
    ⟨fun y hy _ => hvalue y (hneeded y hy), fun y hy s hs => hfit y (hneeded y hy) s hs⟩
  refine ⟨hstop, (hholds hstop (x 3)).1 ⟨hthree, by decide +kernel⟩, ?_⟩
  rw [(hholds hstop (x 2)).2 fun h => htwo h.1]
  decide +kernel

/-- A value that no run reaches: there are no values to be computed, but the product of the
dimensions does not fit into a word before it comes to zero. -/
theorem run_stops_for_overflowing_shape :
    let x := BufferId.ofNat
    let shape : Shape := [4294967296, 4294967296, 0]
    let g := Graph.empty.after [.input "x" shape, .push "y" (.unary .neg) [x 0]]
    let m := (Machine.new 0).put (x 0) ⟨[0], #[]⟩
    g.Built ∧ (∀ y ∈ [x 1], (g.node? y).isSome) ∧ g.LoadFree [x 1] ∧
      g.value m (x 1) = some ⟨shape, #[]⟩ ∧ g.HasValues [x 1] m ∧
      ∃ schedule, g.schedule [x 1] = .ok schedule ∧ ∀ c,
        (Engine.run schedule m c).stop = some (.fault .multiplyOverflow) := by
  intro x shape g m
  have hg : g.Built := Built.empty.after _
  have hout : ∀ y ∈ [x 1], (g.node? y).isSome := by decide +kernel
  have hload : g.LoadFree [x 1] := loadFree_of_ids (by decide +kernel) _
  have hdef : g.HasValues [x 1] m := by
    have hvalue : ∀ y ∈ [x 0, x 1], (g.value m y).isSome := by decide +kernel
    intro y hy _
    exact hvalue y (hy.mem_of_closed (by decide +kernel) (by decide +kernel))
  have hlarge : ¬ g.CostsFit [x 1] m := by
    have hstep : ∃ s, g.step? (x 1) = some s ∧ s.Overflows (g.value m) :=
      ⟨⟨.unary .neg, x 1, [x 0], shape⟩, by decide +kernel⟩
    obtain ⟨s, hs, hover⟩ := hstep
    exact fun hfit => hfit (x 1) (.output List.mem_cons_self) s hs hover
  obtain ⟨schedule, hschedule, h⟩ := hg.scheduled hout
  refine ⟨hg, hout, hload, by decide +kernel, hdef, schedule, hschedule, fun c => ?_⟩
  refine (h.stop_of_hasValues hg hout hload hdef c 0).resolve_left fun hstop => hlarge ?_
  have hsolved := (Schedule.runFrom_iff_solution h.ordered (h.pure_of_loadFree hload) c 0).mp hstop
  exact ((h.exists_solution_iff hg hout hload).mp hsolved).2

end Graph

end Staging
