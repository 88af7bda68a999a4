import Staging.Graph.Model
import Staging.Proofs.Representation

/-!
# Well-formed models

A model is well formed (`Model.WellFormed`) when no name is declared twice, every item has a shape
in the scope of the items before it (`Model.Declares`) and every output is declared. None of this
mentions a graph.

A graph has a scope too, of its labels. In it, an item has a shape exactly when there is an entry
for it (`Graph.IsEntry`, `Graph.Indexed.hasShape_scope`), whose shape is determined by the graph
(`Graph.IsEntry.shape_eq`).
-/

namespace Staging

/-! ## Names of operations -/

namespace Op

variable {name : String} {op : Op} {shapes : List Shape} {shape : Shape} {value : Option Scalar}

/-- The operation is known by the name, without regard to case. -/
def Named (name : String) (op : Op) : Prop :=
  ∃ known, (known, op) ∈ names ∧ known.toLower = name.toLower

theorem ofName?_eq_some : ofName? name = some op ↔ Named name op := by
  have hlower : ∀ p ∈ names, p.1.toLower = p.1 := by decide +kernel
  have hnodup : (names.map Prod.fst).Nodup := by decide +kernel
  rw [ofName?, List.lookup_eq_some_iff]
  constructor
  · rintro ⟨before, after, hnames, -⟩
    have hmem : (name.toLower, op) ∈ names := hnames ▸ List.mem_append_right _ List.mem_cons_self
    exact ⟨_, hmem, hlower _ hmem⟩
  · rintro ⟨known, hmem, hknown⟩
    rw [← hknown, hlower _ hmem]
    obtain ⟨before, after, hnames⟩ := List.append_of_mem hmem
    refine ⟨before, after, hnames, fun p hp => bne_iff_ne.mpr fun heq => ?_⟩
    -- the entry would have the name of one before it
    rw [hnames, List.map_append, List.map_cons] at hnodup
    exact (List.nodup_append.mp hnodup).2.2 p.1 (List.mem_map_of_mem hp) known List.mem_cons_self
      heq.symm

theorem withValue_arity : (op.withValue value).arity = op.arity := by
  unfold withValue
  split <;> rfl

theorem withValue_makes : (op.withValue value).Makes shapes shape ↔ op.Makes shapes shape := by
  unfold withValue
  split
  next =>
    constructor
    · rintro (h | _)
      exact .given h
    · rintro (h | _)
      exact .given h
  next => exact Iff.rfl

end Op

/-- The number of values is a size, and as many values can be addressed. -/
def Shape.Addressable (s : Shape) : Prop := s.size = .ok s.count ∧ s.count * 4 < 1 <<< 63

instance (s : Shape) : Decidable s.Addressable :=
  decidable_of_iff (s.size.toOption = some s.count ∧ s.count * 4 < 1 <<< 63)
    (and_congr_left' toOption_eq_some)

/-! ## Well-formed models -/

namespace Model

/-- What a model declares under a name. -/
inductive Item where
  | input (i : Input)
  | weight (w : Weight)
  | operation (n : Operation)

def Item.name : Item → String
  | .input i => i.name
  | .weight w => w.name
  | .operation n => n.name

/-- The items of a model in their order. -/
def items (m : Model) : List Item :=
  m.inputs.map .input ++ m.weights.map .weight ++ m.operations.map .operation

/-- The names that are declared. -/
def names (m : Model) : List String := m.items.map Item.name

/-- The values of a weight are given, as many as its shape asks for, or they are all the same. -/
inductive Weight.Holds (w : Weight) : Array Scalar → Prop where
  | data {values : List Scalar} : w.data = some values → w.fill = none →
      values.length = w.shape.count → Holds w values.toArray
  | fill : w.data = none → Holds w (Array.replicate w.shape.count (w.fill.getD 0))

theorem Weight.Holds.size_eq {w : Weight} {values : Array Scalar} (h : w.Holds values) :
    values.size = w.shape.count := by
  cases h with
  | data _ _ hlength => exact hlength
  | fill _ => exact Array.size_replicate

/-- The shape of an operation is given, or it is left open and there are operands to infer it
from. -/
def Operation.Asks (n : Operation) (op : Op) (shape : Shape) : Prop :=
  n.shape = some shape ∨ n.shape = none ∧ op.arity ≠ 0

/-- Names with their shapes. -/
abbrev Scope := List (String × Shape)

/-- An item has a shape, in the scope of the items before it. -/
inductive Item.HasShape (scope : Scope) : Item → Shape → Prop where
  | input {i : Input} : HasShape scope (.input i) i.shape
  | weight {w : Weight} {values : Array Scalar} : w.Holds values → HasShape scope (.weight w) w.shape
  | operation {n : Operation} {op : Op} {shapes : List Shape} {shape : Shape} :
      op.Named n.op → List.Forall₂ (fun name xs => (name, xs) ∈ scope) n.operands shapes →
      op.Makes shapes shape → n.Asks op shape → HasShape scope (.operation n) shape

/-- Each item has a shape, with which it is added to the scope of the items after it. -/
inductive Declares : Scope → List Item → Scope → Prop where
  | nil {scope : Scope} : Declares scope [] scope
  | cons {scope scope' : Scope} {item : Item} {rest : List Item} {shape : Shape} :
      item.HasShape scope shape → Declares (scope ++ [(item.name, shape)]) rest scope' →
      Declares scope (item :: rest) scope'

/-- A model of which a graph can be built. -/
structure WellFormed (m : Model) : Prop where
  /-- No name is declared twice. -/
  distinct : m.names.Nodup
  /-- Every item has a shape. -/
  declared : ∃ scope, Declares [] m.items scope
  /-- The outputs are declared. -/
  outputs : ∀ name ∈ m.outputs, name ∈ m.names

/-- A weight, or an item that is declared before anything is wrong, has more values than can be
addressed. -/
def Large (m : Model) : Prop :=
  (∃ w ∈ m.weights, ¬ w.shape.Addressable) ∨
    ∃ items scope, items <+: m.items ∧ Declares [] items scope ∧
      ∃ e ∈ scope, ¬ e.2.Addressable

theorem Declares.snoc {scope scope' : Scope} {items : List Item} {item : Item} {shape : Shape}
    (h : Declares scope items scope') (hitem : item.HasShape scope' shape) :
    Declares scope (items ++ [item]) (scope' ++ [(item.name, shape)]) := by
  induction h with
  | nil => exact .cons hitem .nil
  | cons hhead _ ih => exact .cons hhead (ih hitem)

end Model

namespace Graph

variable {g g' : Graph} {m : Model} {item : Model.Item} {n : Model.Operation} {w : Model.Weight}
  {name : String} {e : Entry} {op : Op} {operands : List BufferId} {shape : Shape}
  {shapes : List Shape}

/-! ## Scopes of graphs -/

/-- The names of the nodes with their shapes. -/
def scope (g : Graph) : Model.Scope :=
  List.zipWith (fun name node => (name, node.shape)) g.labels.toList g.nodes.toList

theorem Indexed.scope_grow (h : g.Indexed) :
    (g.grow name e).scope = g.scope ++ [(name, e.node.shape)] := by
  have hlength : g.labels.toList.length = g.nodes.toList.length := h.labelled
  rw [scope, Graph.grow, Array.toList_push, Array.toList_push, List.zipWith_append hlength]
  rfl

/-- The scope has the nodes with their labels. -/
theorem Indexed.mem_scope_of_shape (h : g.Indexed) {x : BufferId} (hx : g.shape x = .ok shape) :
    (g.label x, shape) ∈ g.scope := by
  obtain ⟨node, hnode, rfl⟩ := shape_eq_ok.mp hx
  refine List.mem_iff_getElem?.mpr ⟨x.index, ?_⟩
  rw [scope, List.getElem?_zipWith_eq_some]
  exact ⟨_, node, Array.getElem?_toList ▸ h.getElem?_label hnode, Array.getElem?_toList ▸ hnode, rfl⟩

/-- A name has a shape when it is found and the node has the shape. -/
theorem Indexed.mem_scope (h : g.Indexed) (hids : g.size ≤ UInt32.size) :
    (name, shape) ∈ g.scope ↔ ∃ x, g.find name = .ok x ∧ g.shape x = .ok shape := by
  constructor
  · intro hmem
    obtain ⟨i, hi⟩ := List.mem_iff_getElem?.mp hmem
    rw [scope, List.getElem?_zipWith_eq_some] at hi
    obtain ⟨_, node, hlabel, hnode, heq⟩ := hi
    cases heq
    rw [Array.getElem?_toList] at hlabel hnode
    exact ⟨.ofNat i, find_eq_ok.mpr ((h.found name _).mpr ⟨i, hlabel, rfl⟩),
      shape_eq_ok.mpr ⟨node, node?_ofNat hids hnode, rfl⟩⟩
  · rintro ⟨x, hx, hshape⟩
    obtain ⟨-, rfl⟩ := h.label_of_find? hids (find_eq_ok.mp hx)
    exact h.mem_scope_of_shape hshape

/-- Names have shapes when they are found and the nodes have the shapes. -/
theorem Indexed.forall₂_scope (h : g.Indexed) (hids : g.size ≤ UInt32.size)
    {operands : List String} :
    List.Forall₂ (fun name xs => (name, xs) ∈ g.scope) operands shapes ↔
      ∃ ids, List.Forall₂ (fun name x => g.find name = .ok x) operands ids ∧
        g.Shaped ids shapes := by
  constructor
  · intro hoperands
    induction hoperands with
    | nil => exact ⟨[], .nil, .nil⟩
    | cons hhead _ ih =>
      obtain ⟨x, hx, hshape⟩ := (h.mem_scope hids).mp hhead
      obtain ⟨ids, hids, hshapes⟩ := ih
      exact ⟨x :: ids, .cons hx hids, .cons hshape hshapes⟩
  · rintro ⟨ids, hfound, hshapes⟩
    induction hfound generalizing shapes with
    | nil =>
      cases hshapes
      exact .nil
    | cons hx _ ih =>
      obtain _ | ⟨hshape, hshapes⟩ := hshapes
      exact .cons ((h.mem_scope hids).mpr ⟨_, hx, hshape⟩) (ih hshapes)

/-! ## Entries of items -/

/-- The entry of an item, whose operands are found in the graph. -/
inductive IsEntry (g : Graph) : Model.Item → Entry → Prop where
  | input {i : Model.Input} : IsEntry g (.input i) (.input i.shape)
  | weight {w : Model.Weight} {values : Array Scalar} : w.Holds values →
      IsEntry g (.weight w) (.weight w.shape values)
  | operation {n : Model.Operation} {op : Op} {operands : List BufferId} {shape : Shape} :
      op.Named n.op → List.Forall₂ (fun name x => g.find name = .ok x) n.operands operands →
      g.Accepts (.apply (op.withValue n.value) operands shape) → n.Asks op shape →
      IsEntry g (.operation n) (.apply (op.withValue n.value) operands shape)

/-- **In the scope of a graph**, an item has a shape exactly when there is an entry for it. -/
theorem Indexed.hasShape_scope (h : g.Indexed) (hids : g.size ≤ UInt32.size) :
    item.HasShape g.scope shape ↔ ∃ e, g.IsEntry item e ∧ e.node.shape = shape := by
  constructor
  · intro hitem
    cases hitem with
    | input => exact ⟨_, .input, rfl⟩
    | weight hholds => exact ⟨_, .weight hholds, rfl⟩
    | @operation n op shapes shape hop hoperands hmakes hasks =>
      obtain ⟨ids, hfound, hshapes⟩ := (h.forall₂_scope hids).mp hoperands
      have haccepts : g.Accepts (.apply (op.withValue n.value) ids shape) :=
        accepts_apply.mpr ⟨shapes, hshapes, Op.withValue_makes.mpr hmakes⟩
      exact ⟨_, .operation hop hfound haccepts hasks, rfl⟩
  · rintro ⟨e, he, rfl⟩
    cases he with
    | input => exact .input
    | weight hholds => exact .weight hholds
    | operation hop hfound haccepts hasks =>
      obtain ⟨shapes, hshapes, hmakes⟩ := accepts_apply.mp haccepts
      have hoperands := (h.forall₂_scope hids).mpr ⟨_, hfound, hshapes⟩
      exact .operation hop hoperands (Op.withValue_makes.mp hmakes) hasks

/-- The shape of an item is determined. -/
theorem IsEntry.shape_eq {e' : Entry} (h : g.IsEntry item e) (h' : g.IsEntry item e') :
    e.node.shape = e'.node.shape := by
  cases h with
  | input => cases h'; rfl
  | weight _ => cases h'; rfl
  | @operation n op operands shape hop hfound haccepts hasks =>
    obtain _ | _ | ⟨hop', hfound', haccepts', hasks'⟩ := h'
    cases (Op.ofName?_eq_some.mpr hop).symm.trans (Op.ofName?_eq_some.mpr hop')
    cases (mapM_eq_ok.mpr hfound).symm.trans (mapM_eq_ok.mpr hfound')
    obtain hshape | ⟨hshape, harity⟩ := hasks
    · obtain hshape' | ⟨hshape', -⟩ := hasks'
      · exact Option.some.inj (hshape.symm.trans hshape')
      · cases hshape.symm.trans hshape'
    · have harity : (op.withValue n.value).arity ≠ 0 := by rwa [Op.withValue_arity]
      exact Except.ok.inj ((haccepts.inferShape_eq harity).symm.trans
        (haccepts'.inferShape_eq harity))

theorem IsEntry.mono (h : g.IsEntry item e) (hext : g.Extends g')
    (hfind : ∀ name x, g.find name = .ok x → g'.find name = .ok x) : g'.IsEntry item e := by
  cases h with
  | input => exact .input
  | weight hholds => exact .weight hholds
  | operation hop hfound haccepts hasks =>
    exact .operation hop (hfound.imp fun name x hx => hfind name x hx) (haccepts.mono hext) hasks

end Graph

end Staging
