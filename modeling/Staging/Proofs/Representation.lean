import Mathlib.Data.List.Nodup
import Staging.Proofs.Built
import Staging.Proofs.Shape

/-!
# What every built graph satisfies

The nodes of a graph stay as they are while it grows (`Graph.Extends`), and what was checked of an
entry when it was added does not change by that (`Graph.Accepts.mono`). The other parts of a graph
follow its nodes. The names are in step with them (`Graph.Indexed`): there is one for each node, no
two are the same, and what is found by a name is the node of that name. The values are in step too
(`Graph.Initialized`): each node has those that it was added with, which are none unless it is a
weight, and nothing else has any. Both are kept by adding an entry, hence by every call.

So everything that a call checks once holds of the finished graph (`Graph.WellFormed`), after every
list of calls, of which any may have failed (`Graph.after_wellFormed`).

**What it does not establish.** Ids are words of 32 bits. Where there are more nodes than words, an
id stands for several positions, and a further weight would take the place of the values of another.
Statements that need it ask for no more than 2^32 nodes; then the listed nodes are those that are
found by their ids (`Graph.mem_numbered`).
-/

namespace Staging.Graph

variable {g g' : Graph} {name : String} {node : Node} {e : Entry} {x y : BufferId} {op : Op}
  {operands : List BufferId} {shape : Shape} {shapes : List Shape} {c : Call}

/-! ## Growing -/

/-- Every node of `g` is the same node of `g'`. -/
def Extends (g g' : Graph) : Prop := ∀ x n, g.node? x = some n → g'.node? x = some n

@[simp] theorem size_grow : (g.grow name e).size = g.size + 1 := Array.size_push e.node

theorem node?_grow :
    (g.grow name e).node? x = if x.index = g.size then some e.node else g.node? x := by
  rw [node?, grow, Array.getElem?_push]
  rfl

theorem extends_grow (g : Graph) (name : String) (e : Entry) : g.Extends (g.grow name e) := by
  intro x n hx
  have hlt := index_lt_of_node? hx
  rw [node?_grow, if_neg (by omega)]
  exact hx

/-- A call keeps the nodes, whether it succeeds or fails. -/
theorem extends_call (g : Graph) (c : Call) : g.Extends (g.call c).2 := by
  obtain h | ⟨name, e, -, -, h⟩ | ⟨x, n, -, h⟩ := after_call_cases g c <;> rw [h]
  · exact fun _ _ hx => hx
  · exact extends_grow g name e
  · exact fun _ _ hx => hx

theorem Extends.shape_eq (h : g.Extends g') (hx : g.shape x = .ok shape) :
    g'.shape x = .ok shape := by
  obtain ⟨n, hn, hshape⟩ := shape_eq_ok.mp hx
  exact shape_eq_ok.mpr ⟨n, h x n hn, hshape⟩

/-- What was inferred stays inferred. -/
theorem Extends.inferShape_eq (h : g.Extends g') (hs : g.inferShape op operands = .ok shape) :
    g'.inferShape op operands = .ok shape := by
  obtain ⟨harity, shapes, hshapes, hmakes⟩ := inferShape_eq_ok.mp hs
  exact inferShape_eq_ok.mpr ⟨harity, shapes, hshapes.imp fun _ _ hx => h.shape_eq hx, hmakes⟩

theorem Accepts.mono (h : g.Extends g') (he : g.Accepts e) : g'.Accepts e := by
  cases e with
  | input shape => trivial
  | weight shape data => exact he
  | apply op operands shape => exact ⟨he.1, he.2.imp_right h.inferShape_eq⟩

/-! ## Nodes and outputs -/

/-- **Every node of a built graph is one that the graph itself would accept.** -/
theorem Built.exists_entry (hg : g.Built) (hx : g.node? x = some node) :
    ∃ e, e.node = node ∧ g.Accepts e := by
  induction hg generalizing x node with
  | empty => cases hx
  | @call g _ c ih =>
    have hext := extends_call g c
    have hold : ∀ {x node}, g.node? x = some node → ∃ e, e.node = node ∧ (g.call c).2.Accepts e :=
      fun hx => (ih hx).imp fun _ he => ⟨he.1, he.2.mono hext⟩
    obtain h | ⟨name, e, -, haccepts, h⟩ | ⟨y, n, -, h⟩ := after_call_cases g c
    · rw [h] at hx
      exact hold hx
    · rw [h, node?_grow] at hx
      split at hx
      next =>
        cases hx
        exact ⟨e, rfl, haccepts.mono hext⟩
      next => exact hold hx
    · rw [h] at hx
      exact hold hx

theorem Built.accepts (hg : g.Built) (hx : g.node? x = some (.apply op operands shape)) :
    g.Accepts (.apply op operands shape) := by
  obtain ⟨e, he, haccepts⟩ := hg.exists_entry hx
  cases e <;> cases he
  exact haccepts

/-- Every output of a built graph is a node. -/
theorem Built.output_node (hg : g.Built) (hx : x ∈ g.outputs) : ∃ n, g.node? x = some n := by
  induction hg with
  | empty => cases hx
  | @call g _ c ih =>
    have hext := extends_call g c
    have hold : x ∈ g.outputs → ∃ n, (g.call c).2.node? x = some n :=
      fun hx => (ih hx).imp fun n hn => hext x n hn
    obtain h | ⟨name, e, -, -, h⟩ | ⟨y, n, hy, h⟩ := after_call_cases g c <;> rw [h] at hx
    · exact hold hx
    · exact hold hx
    · rcases List.mem_append.mp hx with hx | hx
      · exact hold hx
      · rw [List.mem_singleton.mp hx]
        exact ⟨n, hext y n hy⟩

/-! ## Names -/

/-- The names are in step with the nodes. -/
structure Indexed (g : Graph) : Prop where
  /-- There is a label for each node. -/
  labelled : g.labels.size = g.nodes.size
  /-- No two labels are the same. -/
  distinct : g.labels.toList.Nodup
  /-- What is found by a name is the id of the position that has it as its label. -/
  found : ∀ name x, g.find? name = some x ↔ ∃ i, g.labels[i]? = some name ∧ x = .ofNat i

theorem find?_grow {new : String} :
    (g.grow new e).find? name = if name = new then some (.ofNat g.size) else g.find? name := by
  rw [find?, grow, Std.ExtTreeMap.getElem?_insert]
  simp only [Std.LawfulEqCmp.compare_eq_iff_eq, @eq_comm _ new name]
  rfl

/-- **A new name keeps the names in step.** -/
theorem Indexed.grow (h : g.Indexed) (hname : g.find? name = none) (e : Entry) :
    (g.grow name e).Indexed where
  labelled := by
    rw [Graph.grow, Array.size_push, Array.size_push, h.labelled]
  distinct := by
    rw [Graph.grow, Array.toList_push, List.nodup_append_comm]
    refine List.nodup_cons.mpr ⟨fun hmem => ?_, h.distinct⟩
    obtain ⟨i, hi⟩ := List.mem_iff_getElem?.mp hmem
    cases hname.symm.trans ((h.found name _).mpr ⟨i, Array.getElem?_toList ▸ hi, rfl⟩)
  found other x := by
    -- the label at the new position is the new name, and no other position has it
    have hlabel : ∀ i, (g.grow name e).labels[i]? =
        if i = g.size then some name else g.labels[i]? := fun i => by
      rw [Graph.grow, Array.getElem?_push, h.labelled]
      rfl
    simp only [find?_grow, hlabel]
    by_cases hother : other = name
    · subst hother
      rw [if_pos rfl]
      constructor
      · intro hx
        exact ⟨g.size, if_pos rfl, (Option.some.inj hx).symm⟩
      · rintro ⟨i, hi, rfl⟩
        split at hi
        next heq => rw [heq]
        next => cases hname.symm.trans ((h.found other _).mpr ⟨i, hi, rfl⟩)
    · rw [if_neg hother, h.found other x]
      refine exists_congr fun i => and_congr_left fun _ => ?_
      split
      next heq =>
        have hnone : g.labels[i]? = none := by
          rw [Array.getElem?_eq_none_iff, h.labelled, heq]
          exact Nat.le_refl _
        rw [hnone]
        simp [Ne.symm hother]
      next => rfl

/-- **The names of a built graph are in step with its nodes.** -/
theorem Built.indexed (hg : g.Built) : g.Indexed := by
  induction hg with
  | empty => exact ⟨rfl, List.nodup_nil, fun name x => by simp [find?, Graph.empty]⟩
  | @call g _ c ih =>
    obtain h | ⟨name, e, hname, -, h⟩ | ⟨y, n, -, h⟩ := after_call_cases g c <;> rw [h]
    · exact ih
    · exact ih.grow hname e
    · exact ⟨ih.labelled, ih.distinct, ih.found⟩

theorem find_eq_ok : g.find name = .ok x ↔ g.find? name = some x := by
  unfold find
  cases g.find? name <;> simp

theorem Indexed.find?_eq_none (h : g.Indexed) : g.find? name = none ↔ name ∉ g.labels.toList := by
  rw [← not_iff_not, not_not, List.mem_iff_getElem?, ← ne_eq, Option.ne_none_iff_exists']
  simp only [h.found, Array.getElem?_toList]
  exact ⟨fun ⟨_, i, hi, _⟩ => ⟨i, hi⟩, fun ⟨i, hi⟩ => ⟨_, i, hi, rfl⟩⟩

/-- Exactly the labels are found. -/
theorem Indexed.exists_find (h : g.Indexed) :
    (∃ x, g.find name = .ok x) ↔ name ∈ g.labels.toList := by
  simp only [find_eq_ok]
  rw [← Option.isSome_iff_exists, ← not_iff_not, ← h.find?_eq_none, Option.not_isSome_iff_eq_none]

/-- A node has a label. -/
theorem Indexed.getElem?_label (h : g.Indexed) (hx : g.node? x = some node) :
    g.labels[x.index]? = some (g.label x) := by
  have hlt : x.index < g.labels.size := h.labelled ▸ index_lt_of_node? hx
  rw [label, Array.getElem?_eq_getElem hlt]
  rfl

/-- A node is found by its label. -/
theorem Indexed.find?_label (h : g.Indexed) (hx : g.node? x = some node) :
    g.find? (g.label x) = some x :=
  (h.found _ x).mpr ⟨x.index, h.getElem?_label hx, (BufferId.ofNat_index x).symm⟩

/-- Every position is that of an id, as long as ids are enough for all nodes. -/
theorem node?_ofNat (hids : g.size ≤ UInt32.size) {i : Nat} (h : g.nodes[i]? = some node) :
    g.node? (.ofNat i) = some node := by
  have hlt := (Array.getElem?_eq_some_iff.mp h).1
  rw [node?, BufferId.index_ofNat (Nat.lt_of_lt_of_le hlt hids), h]

/-- A label is that of an id with a node, as long as ids are enough for all nodes. -/
theorem Indexed.label_ofNat (h : g.Indexed) (hids : g.size ≤ UInt32.size) {i : Nat}
    (hi : g.labels[i]? = some name) :
    (∃ n, g.node? (.ofNat i) = some n) ∧ g.label (.ofNat i) = name := by
  have hlt : i < g.size := Nat.lt_of_lt_of_eq (Array.getElem?_eq_some_iff.mp hi).1 h.labelled
  have hindex := BufferId.index_ofNat (Nat.lt_of_lt_of_le hlt hids)
  refine ⟨node?_of_index_lt (hindex.symm ▸ hlt), ?_⟩
  rw [label, hindex, hi]
  rfl

/-- Where ids are enough for all nodes, what is found is the node of that name. -/
theorem Indexed.label_of_find? (h : g.Indexed) (hids : g.size ≤ UInt32.size)
    (hx : g.find? name = some x) : (∃ n, g.node? x = some n) ∧ g.label x = name := by
  obtain ⟨i, hi, rfl⟩ := (h.found name x).mp hx
  exact h.label_ofNat hids hi

/-- What is found stays found. -/
theorem find_grow {new : String} (hnew : g.find? new = none) (hx : g.find name = .ok x) :
    (g.grow new e).find name = .ok x := by
  rw [find_eq_ok] at hx ⊢
  have hne : name ≠ new := fun heq => nomatch (heq ▸ hnew).symm.trans hx
  rw [find?_grow, if_neg hne, hx]

/-! ## Ids -/

/-- A node is listed with its id. -/
theorem mem_numbered_of_node? (hx : g.node? x = some node) : (x, node) ∈ g.numbered := by
  refine List.mem_map.mpr ⟨(node, x.index), ?_, by simp⟩
  rwa [List.mem_zipIdx_iff_getElem?, Array.getElem?_toList]

/-- **Ids and nodes correspond**, as long as ids are enough for all nodes. -/
theorem mem_numbered (hids : g.size ≤ UInt32.size) :
    (x, node) ∈ g.numbered ↔ g.node? x = some node := by
  refine ⟨fun h => ?_, mem_numbered_of_node?⟩
  obtain ⟨⟨n, i⟩, hmem, heq⟩ := List.mem_map.mp h
  cases heq
  rw [List.mem_zipIdx_iff_getElem?, Array.getElem?_toList] at hmem
  exact node?_ofNat hids hmem

theorem mem_inputs : (x, shape) ∈ g.inputs ↔ (x, .input shape) ∈ g.numbered := by
  unfold inputs
  rw [List.mem_filterMap]
  constructor
  · rintro ⟨⟨y, n⟩, hmem, heq⟩
    cases n <;> simp at heq
    obtain ⟨rfl, rfl⟩ := heq
    exact hmem
  · exact fun h => ⟨_, h, rfl⟩

theorem mem_roots : x ∈ g.roots ↔ ∃ shape, (x, shape) ∈ g.inputs := by
  unfold roots
  rw [IdSet.mem_ofList]
  simp

/-! ## Values -/

/-- The values are in step with the nodes. -/
structure Initialized (g : Graph) : Prop where
  /-- A node has the values that it was added with, if any. -/
  node : ∀ x n, g.node? x = some n →
    ∃ e, e.node = n ∧ g.Accepts e ∧ g.initializers[x]? = e.values?
  /-- Nothing else has values. -/
  other : ∀ x, g.node? x = none → g.initializers[x]? = none

/-- The id of the new position has the values of the entry, and every other id what it had. -/
theorem Initialized.getElem?_grow (h : g.Initialized) (hlt : g.size < UInt32.size) :
    (g.grow name e).initializers[x]? =
      if x.index = g.size then e.values? else g.initializers[x]? := by
  have hindex : x.index = g.size ↔ .ofNat g.size = x :=
    ⟨fun hx => by rw [← hx, BufferId.ofNat_index], fun hx => by rw [← hx, BufferId.index_ofNat hlt]⟩
  have hnone : x.index = g.size → g.initializers[x]? = none := fun hx =>
    h.other x (Array.getElem?_eq_none_iff.mpr (Nat.le_of_eq hx.symm))
  rw [grow]
  cases e.values? with
  | none =>
    split
    next hx => exact hnone hx
    next => rfl
  | some data =>
    simp only [Option.elim_some, Std.ExtTreeMap.getElem?_insert, Std.LawfulEqCmp.compare_eq_iff_eq,
      hindex]

/-- **An accepted entry keeps the values in step**, as long as there is an id for it. -/
theorem Initialized.grow (h : g.Initialized) (hlt : g.size < UInt32.size) (haccepts : g.Accepts e)
    (name : String) : (g.grow name e).Initialized where
  node x n hx := by
    have hext := extends_grow g name e
    rw [node?_grow] at hx
    rw [h.getElem?_grow hlt]
    split at hx
    next hindex =>
      cases hx
      exact ⟨e, rfl, haccepts.mono hext, if_pos hindex⟩
    next hindex =>
      obtain ⟨e', he', haccepts', hvalues⟩ := h.node x n hx
      exact ⟨e', he', haccepts'.mono hext, (if_neg hindex).trans hvalues⟩
  other x hx := by
    rw [node?_grow] at hx
    rw [h.getElem?_grow hlt]
    split at hx
    next => cases hx
    next hindex => exact (if_neg hindex).trans (h.other x hx)

/-- **The values of a built graph are in step with its nodes**, as long as ids are enough for all
nodes. -/
theorem Built.initialized (hg : g.Built) (hids : g.size ≤ UInt32.size) : g.Initialized := by
  induction hg with
  | empty => exact ⟨fun x n hx => (nomatch hx), fun x _ => by simp [Graph.empty]⟩
  | @call g _ c ih =>
    obtain h | ⟨name, e, -, haccepts, h⟩ | ⟨y, n, -, h⟩ := after_call_cases g c <;> rw [h] at hids ⊢
    · exact ih hids
    · rw [size_grow] at hids
      exact (ih (Nat.le_of_succ_le hids)).grow hids haccepts name
    · -- outputs are neither looked up nor inferred from
      have hold := ih hids
      have hext : g.Extends { g with outputs := g.outputs ++ [y] } := fun _ _ hx => hx
      refine ⟨fun x n hx => ?_, hold.other⟩
      obtain ⟨e, he, haccepts, hvalues⟩ := hold.node x n hx
      exact ⟨e, he, haccepts.mono hext, hvalues⟩

/-- Exactly the weights have values. -/
theorem Initialized.exists_values (h : g.Initialized) :
    (∃ data, g.initializers[x]? = some data) ↔ ∃ shape, g.node? x = some (.weight shape) := by
  cases hx : g.node? x with
  | none => simp [h.other x hx]
  | some n =>
    obtain ⟨e, rfl, -, hvalues⟩ := h.node x n hx
    rw [hvalues]
    cases e <;> simp [Entry.node, Entry.values?]

/-- The values are as many as the shape of the weight asks for. -/
theorem Initialized.size_eq (h : g.Initialized) {data : Array Scalar}
    (hdata : g.initializers[x]? = some data) :
    ∃ shape, g.node? x = some (.weight shape) ∧ shape.size = .ok data.size := by
  obtain ⟨shape, hx⟩ := h.exists_values.mp ⟨data, hdata⟩
  obtain ⟨e, he, haccepts, hvalues⟩ := h.node x _ hx
  cases e <;> cases he
  cases hdata.symm.trans hvalues
  exact ⟨shape, hx, haccepts⟩

/-! ## Built graphs -/

/-- A graph whose parts are in step. -/
structure WellFormed (g : Graph) : Prop where
  /-- There is a label for each node. -/
  labelled : g.labels.size = g.nodes.size
  /-- No two labels are the same. -/
  distinct : g.labels.toList.Nodup
  /-- A node is found by its label. -/
  found : ∀ x n, g.node? x = some n → g.find (g.label x) = .ok x
  /-- Nothing is found by any other name. -/
  unknown : ∀ name, (∀ x n, g.node? x = some n → g.label x ≠ name) →
    g.find name = .error (.unknownName name)
  /-- An operation has as many operands as it takes, and they come before it. -/
  operands : ∀ x op operands shape, g.node? x = some (.apply op operands shape) →
    operands.length = op.arity ∧ ∀ y ∈ operands, y.index < x.index
  /-- The shape of an operation on operands is the one that is inferred for them. -/
  inferred : ∀ x op operands shape, g.node? x = some (.apply op operands shape) → operands ≠ [] →
    g.inferShape op operands = .ok shape
  /-- Exactly the weights have values. -/
  initialized : ∀ x, x ∈ g.initializers ↔ ∃ shape, g.node? x = some (.weight shape)
  /-- The values of a weight are as many as its shape asks for. -/
  consistent : ∀ x data, g.initializers[x]? = some data →
    ∃ shape, g.shape x = .ok shape ∧ data.size = shape.count
  /-- The outputs are nodes. -/
  outputs : ∀ x ∈ g.outputs, ∃ n, g.node? x = some n

theorem Built.wellFormed (hg : g.Built) (hids : g.size ≤ UInt32.size) : g.WellFormed where
  labelled := hg.indexed.labelled
  distinct := hg.indexed.distinct
  found x n hx := find_eq_ok.mpr (hg.indexed.find?_label hx)
  unknown name h := by
    unfold find
    cases hx : g.find? name with
    | none => rfl
    | some x =>
      obtain ⟨⟨n, hn⟩, hlabel⟩ := hg.indexed.label_of_find? hids hx
      exact absurd hlabel (h x n hn)
  operands x op operands shape hx := ⟨(hg.accepts hx).1, fun y hy => hg.operand_lt hx hy⟩
  inferred x op operands shape hx hne := (hg.accepts hx).2.resolve_left hne
  initialized x := by
    rw [Std.ExtTreeMap.mem_iff_isSome_getElem?, Option.isSome_iff_exists,
      (hg.initialized hids).exists_values]
  consistent x data hdata := by
    obtain ⟨shape, hx, hsize⟩ := (hg.initialized hids).size_eq hdata
    exact ⟨shape, shape_eq_ok.mpr ⟨_, hx, rfl⟩, Shape.count_of_size hsize⟩
  outputs x hx := hg.output_node hx

/-- **The parts of a graph stay in step.** After every list of calls on the empty graph, of which
any may have failed, a further call that fails, for whatever reason, leaves the nodes, the labels,
the names, the values and the outputs as they were; and the graph is well formed, as long as ids are
enough for all nodes. -/
theorem after_wellFormed (calls : List Call) :
    let g := empty.after calls
    (∀ c why, (g.call c).1 = .error why → empty.after (calls ++ [c]) = g) ∧
      (g.size ≤ UInt32.size → g.WellFormed) := by
  intro g
  refine ⟨fun c why hwhy => ?_, (Built.empty.after calls).wellFormed⟩
  rw [after_concat]
  obtain ⟨_, h⟩ | ⟨_, _, -, -, h⟩ | ⟨_, _, -, h⟩ := call_cases g c
  · exact congrArg Prod.snd h
  · rw [h] at hwhy
    cases hwhy
  · rw [h] at hwhy
    cases hwhy

/-- Calls that fail for a name that is taken, a wrong number of values, a wrong number of operands,
an operand that is not there, a shape that is not the inferred one and an output that is not there;
the others add four nodes, the values of one of them, and an output. Made once more, those that fail
fail again, and nothing changes. -/
theorem after_wellFormed_with_failures :
    let x := BufferId.ofNat
    let failing : List Call := [.input "x" [3], .weight "x" [1] #[4], .weight "v" [2] #[1],
      .push "u" (.binary .add) [x 0], .push "u" (.unary .neg) [x 7],
      .pushShaped "z" (.unary .exp) [x 2] [3], .markOutput (x 9)]
    let calls : List Call := .input "x" [2] :: failing ++ [.weight "w" [2] #[1, 2],
      .push "y" (.binary .add) [x 0, x 1], .pushShaped "f" (.fill 1) [] [0], .markOutput (x 2)]
    let g := empty.after calls
    g.size = 4 ∧ g.size ≤ UInt32.size ∧ g.WellFormed ∧ g.initializers.toList = [(x 1, #[1, 2])] ∧
      ∀ c ∈ failing, (∃ why, (g.call c).1 = .error why) ∧ empty.after (calls ++ [c]) = g := by
  intro x failing calls g
  have hsize : g.size = 4 := by decide +kernel
  have hids : g.size ≤ UInt32.size := by rw [hsize]; decide
  have hvalues : g.initializers.toList = [(x 1, #[1, 2])] := by decide +kernel
  have hfail : ∀ c ∈ failing, (g.call c).1.toOption = none := by decide +kernel
  refine ⟨hsize, hids, (after_wellFormed calls).2 hids, hvalues, fun c hc => ?_⟩
  cases hcall : (g.call c).1 with
  | error why => exact ⟨⟨why, rfl⟩, (after_wellFormed calls).1 c why hcall⟩
  | ok u =>
    have hnone := hfail c hc
    rw [hcall] at hnone
    cases hnone

end Staging.Graph
