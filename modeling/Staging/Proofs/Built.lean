import Staging.Graph.Order
import Staging.Proofs.Inference

/-!
# Graphs that are built by calls

`Graph.Built` holds of the graphs that calls of the building interface reach from the empty graph,
whether the calls succeed or fail. What each call does is said once (`Graph.Adds`): it adds an entry
to all parts of the graph that have to know of it, or it fails and changes none of them. Taken
together (`Graph.call_cases`), a call leaves the graph as it was, adds an entry that was accepted
under a new name, or wants the value of a node. From it follows that operands come before the nodes
that refer to them (`Graph.Built.operand_lt`), so that a graph has no cycles. The other way round,
every entry that is accepted can be added (`Graph.Built.grow`).
-/

namespace Staging

namespace Graph

/-- A call of the building interface. -/
inductive Call where
  | input (name : String) (shape : Shape)
  | weight (name : String) (shape : Shape) (data : Array Scalar)
  | push (name : String) (op : Op) (operands : List BufferId)
  | pushShaped (name : String) (op : Op) (operands : List BufferId) (shape : Shape)
  | markOutput (x : BufferId)

def Call.build : Call → Build Unit
  | .input name shape => discard (addInput name shape)
  | .weight name shape data => discard (addWeight name shape data)
  | .push name op operands => discard (Graph.push name op operands)
  | .pushShaped name op operands shape => discard (Graph.pushShaped name op operands shape)
  | .markOutput x => Graph.markOutput x

/-- Whether a call succeeds, and the graph after it. -/
def call (g : Graph) (c : Call) : Result GraphError Unit × Graph := c.build.run g

/-- The graph after several calls, of which any may fail. -/
def after (g : Graph) (calls : List Call) : Graph := calls.foldl (fun g c => (g.call c).2) g

/-- Graphs that are reached by calls. -/
inductive Built : Graph → Prop where
  | empty : Built .empty
  | call {g : Graph} : Built g → (c : Call) → Built (g.call c).2

theorem Built.after {g : Graph} (hg : g.Built) (calls : List Call) : (g.after calls).Built := by
  induction calls generalizing g with
  | nil => exact hg
  | cons c calls ih => exact ih (hg.call c)

theorem after_concat (g : Graph) (calls : List Call) (c : Call) :
    g.after (calls ++ [c]) = ((g.after calls).call c).2 := by
  simp only [after, List.foldl_append, List.foldl_cons, List.foldl_nil]

/-! ## Entries -/

/-- What is added to a graph: a node, and with a weight its values. -/
inductive Entry where
  | input (shape : Shape)
  | weight (shape : Shape) (data : Array Scalar)
  | apply (op : Op) (operands : List BufferId) (shape : Shape)
deriving DecidableEq, Repr

namespace Entry

def node : Entry → Node
  | .input shape => .input shape
  | .weight shape _ => .weight shape
  | .apply op operands shape => .apply op operands shape

def values? : Entry → Option (Array Scalar)
  | .weight _ data => some data
  | _ => none

end Entry

/-- What is checked of an entry before it is added. -/
def Accepts (g : Graph) : Entry → Prop
  | .input _ => True
  | .weight shape data => shape.size = .ok data.size
  | .apply op operands shape =>
    operands.length = op.arity ∧ (operands = [] ∨ g.inferShape op operands = .ok shape)

/-- The graph with one more entry, of which each part has been told. -/
def grow (g : Graph) (name : String) (e : Entry) : Graph where
  nodes := g.nodes.push e.node
  labels := g.labels.push name
  names := g.names.insert name (.ofNat g.size)
  initializers := e.values?.elim g.initializers (g.initializers.insert (.ofNat g.size))
  outputs := g.outputs

variable {g g' : Graph} {name : String} {node : Node} {e : Entry} {x y : BufferId} {op : Op}
  {operands : List BufferId} {shape : Shape} {data : Array Scalar} {build : Build BufferId}

/-- The shape of an accepted operation is inferred if there are operands. -/
theorem Accepts.inferShape_eq (h : g.Accepts (.apply op operands shape)) (harity : op.arity ≠ 0) :
    g.inferShape op operands = .ok shape := by
  obtain ⟨hlength, rfl | hinfer⟩ := h
  · exact absurd hlength.symm harity
  · exact hinfer

theorem accepts_of_inferShape (h : g.inferShape op operands = .ok shape) :
    g.Accepts (.apply op operands shape) :=
  ⟨(inferShape_ok h).1, .inr h⟩

/-- **An operation is accepted** when its shape is made of those of its operands. -/
theorem accepts_apply :
    g.Accepts (.apply op operands shape) ↔ ∃ shapes, g.Shaped operands shapes ∧
      op.Makes shapes shape := by
  constructor
  · rintro ⟨hlength, rfl | hinfer⟩
    · exact ⟨[], .nil, .given hlength.symm⟩
    · exact (inferShape_eq_ok.mp hinfer).2
  · rintro ⟨shapes, hshapes, hmakes⟩
    refine ⟨hshapes.length_eq.trans hmakes.length_eq, ?_⟩
    by_cases harity : op.arity = 0
    · refine .inl (List.length_eq_zero_iff.mp ?_)
      rw [hshapes.length_eq, hmakes.length_eq, harity]
    · exact .inr (inferShape_eq_ok.mpr ⟨harity, shapes, hshapes, hmakes⟩)

/-! ## What each call does -/

/-- The call adds the entry if it is accepted and its name is new. Otherwise it fails, and the graph
is the same in all its parts. -/
structure Adds (g : Graph) (build : Build BufferId) (name : String) (e : Entry) : Prop where
  ok : g.find? name = none → g.Accepts e → build.run g = (.ok (.ofNat g.size), g.grow name e)
  error : ¬ (g.find? name = none ∧ g.Accepts e) → ∃ why, build.run g = (.error why, g)

theorem Adds.exec_eq_ok (h : g.Adds build name e) :
    build.exec g = .ok g' ↔ g.find? name = none ∧ g.Accepts e ∧ g' = g.grow name e := by
  rw [Action.exec_eq_ok]
  by_cases hcan : g.find? name = none ∧ g.Accepts e
  · rw [h.ok hcan.1 hcan.2]
    simp [hcan, eq_comm]
  · obtain ⟨why, hwhy⟩ := h.error hcan
    rw [hwhy]
    exact iff_of_false (by simp) fun ⟨hname, haccepts, _⟩ => hcan ⟨hname, haccepts⟩

/-- A call that runs as another one adds the same. -/
theorem Adds.congr {build' : Build BufferId} (h : g.Adds build name e)
    (hrun : build'.run g = build.run g) : g.Adds build' name e where
  ok hname haccepts := hrun.trans (h.ok hname haccepts)
  error hnot := by
    obtain ⟨why, hwhy⟩ := h.error hnot
    exact ⟨why, hrun.trans hwhy⟩

@[simp] theorem run_ask {α : Type} (question : Graph → Result GraphError α) (g : Graph) :
    (ask question).run g = (question g, g) := rfl

theorem insert_run_of_new (h : g.find? name = none) (node : Node) :
    (insert name node).run g = (.ok (.ofNat g.size), { g with
      nodes := g.nodes.push node
      labels := g.labels.push name
      names := g.names.insert name (.ofNat g.size) }) := by
  have hname : g.names.contains name = false := by
    rw [Std.ExtTreeMap.contains_eq_isSome_getElem?]
    exact congrArg Option.isSome h
  rw [insert, Action.run_bind_ok (Action.run_get g), if_neg (by rw [hname]; decide)]
  rfl

theorem insert_run_of_taken (h : g.find? name ≠ none) (node : Node) :
    (insert name node).run g = (.fail (.duplicateName name), g) := by
  have hname : g.names.contains name = true := by
    rw [Std.ExtTreeMap.contains_eq_isSome_getElem?]
    exact Option.isSome_iff_ne_none.mpr h
  rw [insert, Action.run_bind_ok (Action.run_get g), if_pos hname]
  rfl

/-- Only a weight needs more than its node to be put in. -/
theorem insert_adds (haccepts : g.Accepts e) (hvalues : e.values? = none) (name : String) :
    g.Adds (insert name e.node) name e where
  ok hname _ := by
    rw [insert_run_of_new hname, grow, hvalues]
    rfl
  error h := ⟨_, insert_run_of_taken (fun hname => h ⟨hname, haccepts⟩) e.node⟩

theorem addInput_adds (g : Graph) (name : String) (shape : Shape) :
    g.Adds (addInput name shape) name (.input shape) :=
  insert_adds (e := .input shape) trivial rfl name

/-- The values of a weight are counted before its node is put in. -/
theorem addWeight_adds (g : Graph) (name : String) (shape : Shape) (data : Array Scalar) :
    g.Adds (addWeight name shape data) name (.weight shape data) := by
  unfold addWeight
  cases hn : shape.size with
  | error f =>
    exact ⟨fun _ haccepts => (nomatch hn.symm.trans haccepts), fun _ => ⟨.fault f, rfl⟩⟩
  | ok n =>
    by_cases hne : n ≠ data.size
    · refine ⟨fun _ haccepts => absurd (Except.ok.inj (hn.symm.trans haccepts)) hne, fun _ => ?_⟩
      rw [Action.run_bind_ok (Action.run_ofFaulty_ok n g), if_pos hne]
      exact ⟨_, rfl⟩
    · have haccepts : g.Accepts (.weight shape data) := by
        rw [Accepts, hn, Decidable.not_not.mp hne]
      constructor
      · intro hname _
        rw [Action.run_bind_ok (Action.run_ofFaulty_ok n g), if_neg hne,
          Action.run_bind_ok (insert_run_of_new hname _)]
        rfl
      · intro h
        have htaken : g.find? name ≠ none := fun hname => h ⟨hname, haccepts⟩
        rw [Action.run_bind_ok (Action.run_ofFaulty_ok n g), if_neg hne,
          Action.run_bind_error (insert_run_of_taken htaken _)]
        exact ⟨_, rfl⟩

theorem push_run_of_error {why : Failure GraphError} (h : g.inferShape op operands = .error why)
    (name : String) : (push name op operands).run g = (.error why, g) := by
  rw [push, Action.run_bind_error ((run_ask _ g).trans (by rw [h]))]

theorem push_adds (h : g.inferShape op operands = .ok shape) (name : String) :
    g.Adds (push name op operands) name (.apply op operands shape) := by
  have hrun : (push name op operands).run g = (insert name (.apply op operands shape)).run g := by
    rw [push, Action.run_bind_ok ((run_ask _ g).trans (by rw [h]))]
  exact (insert_adds (e := .apply op operands shape) (accepts_of_inferShape h) rfl name).congr hrun

/-- A shape is given when there are no operands, and is the inferred one otherwise. -/
theorem pushShaped_adds (g : Graph) (name : String) (op : Op) (operands : List BufferId)
    (shape : Shape) :
    g.Adds (pushShaped name op operands shape) name (.apply op operands shape) := by
  by_cases haccepts : g.Accepts (.apply op operands shape)
  · have hrun : (pushShaped name op operands shape).run g =
        (insert name (.apply op operands shape)).run g := by
      unfold pushShaped
      by_cases harity : op.arity = 0
      · have hnil : operands = [] := List.length_eq_zero_iff.mp (haccepts.1.trans harity)
        rw [if_pos harity, if_neg (not_not_intro hnil)]
      · have hinfer := haccepts.inferShape_eq harity
        rw [if_neg harity, Action.run_bind_ok ((run_ask _ g).trans (by rw [hinfer])),
          if_neg (not_not_intro rfl)]
    exact (insert_adds (e := .apply op operands shape) haccepts rfl name).congr hrun
  · refine ⟨fun _ h => absurd h haccepts, fun _ => ?_⟩
    unfold pushShaped
    by_cases harity : op.arity = 0
    · have hne : operands ≠ [] := fun hnil =>
        haccepts ⟨by rw [hnil, harity]; rfl, .inl hnil⟩
      rw [if_pos harity, if_pos hne]
      exact ⟨_, rfl⟩
    · rw [if_neg harity, Action.run_bind, run_ask]
      cases hinfer : g.inferShape op operands with
      | error why => exact ⟨why, rfl⟩
      | ok inferred =>
        have hne : inferred ≠ shape := fun heq =>
          haccepts (accepts_of_inferShape (heq ▸ hinfer))
        simp only [if_pos hne]
        exact ⟨_, rfl⟩

theorem markOutput_run_of_node (h : g.node? x = some node) :
    (markOutput x).run g = (.ok (), { g with outputs := g.outputs ++ [x] }) := by
  have hask : Result.ofExcept (g.node x) = .ok node :=
    Result.ofExcept_eq_ok.mpr (node_eq_ok.mpr h)
  rw [markOutput, Action.run_bind_ok ((run_ask _ g).trans (by rw [hask]))]
  rfl

theorem markOutput_run_of_none (h : g.node? x = none) :
    (markOutput x).run g = (.fail (.unknownBuffer x), g) := by
  have hask : Result.ofExcept (g.node x) = .fail (.unknownBuffer x) := by
    rw [node, h]
    rfl
  rw [markOutput, Action.run_bind_error ((run_ask _ g).trans (by rw [hask]; rfl))]
  rfl

/-! ## What a call can do -/

theorem run_discard {α : Type} (build : Build α) (g : Graph) :
    (discard build).run g = ((build.run g).1.map fun _ => (), (build.run g).2) := by
  have hbind : discard build = build >>= fun _ => pure () := rfl
  rw [hbind, Action.run_bind]
  rcases build.run g with ⟨_ | _, _⟩ <;> rfl

/-- A call that adds an entry, as one of the cases below. -/
theorem Adds.discard_cases (h : g.Adds build name e) :
    (∃ why, (discard build).run g = (.error why, g)) ∨
      g.find? name = none ∧ g.Accepts e ∧ (discard build).run g = (.ok (), g.grow name e) := by
  by_cases hcan : g.find? name = none ∧ g.Accepts e
  · refine .inr ⟨hcan.1, hcan.2, ?_⟩
    rw [run_discard, h.ok hcan.1 hcan.2]
    rfl
  · obtain ⟨why, hwhy⟩ := h.error hcan
    refine .inl ⟨why, ?_⟩
    rw [run_discard, hwhy]
    rfl

/-- **What a call can do**: fail and leave the graph as it was, add an entry that is accepted under
a new name, or want a node. -/
theorem call_cases (g : Graph) (c : Call) :
    (∃ why, g.call c = (.error why, g)) ∨
      (∃ name e, g.find? name = none ∧ g.Accepts e ∧ g.call c = (.ok (), g.grow name e)) ∨
      ∃ x n, g.node? x = some n ∧
        g.call c = (.ok (), { g with outputs := g.outputs ++ [x] }) := by
  have added : ∀ {build : Build BufferId} {name : String} {e : Entry}, g.Adds build name e →
      (discard build).run g = g.call c → (∃ why, g.call c = (.error why, g)) ∨
        (∃ name e, g.find? name = none ∧ g.Accepts e ∧ g.call c = (.ok (), g.grow name e)) ∨
        ∃ x n, g.node? x = some n ∧
          g.call c = (.ok (), { g with outputs := g.outputs ++ [x] }) := by
    intro build name e h hcall
    rw [← hcall]
    exact h.discard_cases.imp_right fun hgrow => .inl ⟨name, e, hgrow⟩
  cases c with
  | input name shape => exact added (addInput_adds g name shape) rfl
  | weight name shape data => exact added (addWeight_adds g name shape data) rfl
  | push name op operands =>
    cases hinfer : g.inferShape op operands with
    | ok shape => exact added (push_adds hinfer name) rfl
    | error why =>
      have hrun : (discard (Graph.push name op operands)).run g = (.error why, g) := by
        rw [run_discard, push_run_of_error hinfer]
        rfl
      exact .inl ⟨why, hrun⟩
  | pushShaped name op operands shape => exact added (pushShaped_adds g name op operands shape) rfl
  | markOutput x =>
    cases hnode : g.node? x with
    | none => exact .inl ⟨_, markOutput_run_of_none hnode⟩
    | some n => exact .inr (.inr ⟨x, n, hnode, markOutput_run_of_node hnode⟩)

/-- The graph after a call: the same, one with a further entry, or one with a further output. -/
theorem after_call_cases (g : Graph) (c : Call) :
    (g.call c).2 = g ∨
      (∃ name e, g.find? name = none ∧ g.Accepts e ∧ (g.call c).2 = g.grow name e) ∨
      ∃ x n, g.node? x = some n ∧ (g.call c).2 = { g with outputs := g.outputs ++ [x] } := by
  obtain ⟨why, h⟩ | ⟨name, e, hname, haccepts, h⟩ | ⟨x, n, hx, h⟩ := call_cases g c
  · exact .inl (by rw [h])
  · exact .inr (.inl ⟨name, e, hname, haccepts, by rw [h]⟩)
  · exact .inr (.inr ⟨x, n, hx, by rw [h]⟩)

/-- Every entry that is accepted can be added by a call. -/
theorem Built.grow (hg : g.Built) (hname : g.find? name = none) (haccepts : g.Accepts e) :
    (g.grow name e).Built := by
  have added : ∀ {build : Build BufferId} (c : Call), g.Adds build name e →
      (discard build).run g = g.call c → (g.grow name e).Built := by
    intro build c h hcall
    have hbuilt := hg.call c
    rwa [← hcall, run_discard, h.ok hname haccepts] at hbuilt
  cases e with
  | input shape => exact added (.input name shape) (addInput_adds g name shape) rfl
  | weight shape data =>
    exact added (.weight name shape data) (addWeight_adds g name shape data) rfl
  | apply op operands shape =>
    exact added (.pushShaped name op operands shape) (pushShaped_adds g name op operands shape) rfl

/-! ## Operands come first -/

/-- An accepted entry refers to nodes that are there already. -/
theorem Accepts.operand_lt (h : g.Accepts e) (hy : y ∈ e.node.operands) : y.index < g.size := by
  cases e with
  | input shape => cases hy
  | weight shape data => cases hy
  | apply op operands shape =>
    obtain ⟨-, rfl | hshape⟩ := h
    · cases hy
    · obtain ⟨n, hn⟩ := (inferShape_ok hshape).2 y hy
      exact index_lt_of_node? hn

/-- Every position of a built graph refers to positions before it. -/
theorem Built.operand_lt_of_getElem? (hg : g.Built) {i : Nat} (hi : g.nodes[i]? = some node)
    (hy : y ∈ node.operands) : y.index < i := by
  induction hg generalizing i node with
  | empty => simp [Graph.empty] at hi
  | @call g _ c ih =>
    obtain h | ⟨name, e, -, haccepts, h⟩ | ⟨x, n, -, h⟩ := after_call_cases g c <;> rw [h] at hi
    · exact ih hi hy
    · rw [Graph.grow, Array.getElem?_push] at hi
      split at hi
      next heq =>
        cases hi
        exact heq ▸ haccepts.operand_lt hy
      next => exact ih hi hy
    · exact ih hi hy

/-- **Operands come before the node that refers to them.** -/
theorem Built.operand_lt (hg : g.Built) (hx : g.node? x = some node) (hy : y ∈ node.operands) :
    y.index < x.index :=
  hg.operand_lt_of_getElem? hx hy

theorem Built.operand_node (hg : g.Built) (hx : g.node? x = some node) (hy : y ∈ node.operands) :
    ∃ n, g.node? y = some n :=
  node?_of_index_lt (Nat.lt_trans (hg.operand_lt hx hy) (index_lt_of_node? hx))

end Graph

end Staging
