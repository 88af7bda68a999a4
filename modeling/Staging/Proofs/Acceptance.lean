import Staging.Proofs.Ends
import Staging.Proofs.Model

/-!
# Which models are accepted

Building the graph of a model adds one item after the other. What can happen to one item is said
once (`Graph.Indexed.extend_ends`): it is added when its name is new and there is an entry for it;
if not, there is an error; and there is a fault only where a number of values is too large. From
this follows what happens to all items (`Graph.extend_run`), as the graph so far represents the
items so far (`Graph.Represents`), and what happens to the outputs (`Graph.extendOutput_run`).

So the models that are accepted are the well-formed ones, and the graph is the one that the model
describes (`Graph.ofModel_accepts`).
-/

namespace Staging

namespace Shape

/-- A shape without a size can not be addressed. -/
theorem size_ends_of_addressable (s : Shape) :
    Ends (Fault.Overflow (¬ s.Addressable)) (fun n => n = s.count ∧ s.size = .ok s.count) s.size := by
  cases h : s.size with
  | error f => exact ⟨.inl (size_eq_error h), fun hs => nomatch h.symm.trans hs.1⟩
  | ok n =>
    cases count_of_size h
    exact ⟨rfl, rfl⟩

theorem reserve_ends_of_addressable (s : Shape) :
    Ends (Fault.Overflow (¬ s.Addressable)) (fun _ => True) (Size.reserve s.count) := by
  unfold Size.reserve
  split
  next => trivial
  next hlarge => exact ⟨.inr rfl, fun h => hlarge h.2⟩

theorem broadcast_ends (xs ys : Shape) :
    Ends (Fault.Overflow (¬ xs.Addressable ∨ ¬ ys.Addressable)) (fun _ => True)
      (xs.broadcast ys) := by
  refine (xs.size_ends_of_addressable.weaken fun _ h => h.imp .inl).bind fun xn _ => ?_
  exact (ys.size_ends_of_addressable.weaken fun _ h => h.imp .inr).bind fun yn _ => trivial

end Shape

namespace Graph

variable {g g' : Graph} {m : Model} {item : Model.Item} {n : Model.Operation} {e : Entry}
  {shape : Shape}

/-! ## Faults -/

/-- Inference faults only where an operand is too large. -/
theorem Indexed.inferShape_faults (h : g.Indexed) (op : Op) (operands : List BufferId) :
    Ends (Failure.Refuses True (∃ e ∈ g.scope, ¬ e.2.Addressable)) (fun _ => True)
      (g.inferShape op operands) := by
  have hshape (x : BufferId) :
      Ends (Failure.Refuses True (∃ e ∈ g.scope, ¬ e.2.Addressable))
        (fun xs => ∃ name, (name, xs) ∈ g.scope) (Result.ofExcept (g.shape x)) := by
    cases hx : g.shape x with
    | error e => trivial
    | ok xs => exact ⟨_, h.mem_scope_of_shape hx⟩
  unfold inferShape
  split
  next => trivial
  next =>
    split
    next x _ => exact (hshape x).imp fun _ _ => trivial
    next x _ => cases g.shape x <;> trivial
    next x y _ =>
      refine (hshape x).bind fun xs ⟨_, hxs⟩ => (hshape y).bind fun ys ⟨_, hys⟩ => ?_
      have hlarge : ¬ xs.Addressable ∨ ¬ ys.Addressable → ∃ e ∈ g.scope, ¬ e.2.Addressable :=
        Or.rec (fun h => ⟨_, hxs, h⟩) fun h => ⟨_, hys, h⟩
      have hbroadcast := (xs.broadcast_ends ys).weaken fun _ h => h.imp hlarge
      refine (Ends.ofFaulty hbroadcast).bind fun joint _ => ?_
      cases joint <;> trivial
    next x y _ =>
      refine (hshape x).bind fun xs _ => (hshape y).bind fun ys _ => ?_
      split <;> trivial
    next => trivial

/-- Putting a node in never faults. -/
theorem insert_faults (g : Graph) (name : String) (node : Node) {big : Prop} :
    Ends (Failure.Refuses True big) (fun _ => True) ((insert name node).run g).1 := by
  by_cases hname : g.find? name = none
  · rw [insert_run_of_new hname]
    trivial
  · rw [insert_run_of_taken hname]
    trivial

theorem Indexed.push_faults (h : g.Indexed) (name : String) (op : Op) (operands : List BufferId) :
    Ends (Failure.Refuses True (∃ e ∈ g.scope, ¬ e.2.Addressable)) (fun _ => True)
      ((push name op operands).exec g) := by
  have hinfer : Ends _ _ ((ask (inferShape · op operands)).run g).1 := h.inferShape_faults op operands
  exact (hinfer.run_bind fun shape g' _ => insert_faults g' name (.apply op operands shape)).exec

theorem Indexed.pushShaped_faults (h : g.Indexed) (name : String) (op : Op)
    (operands : List BufferId) (shape : Shape) :
    Ends (Failure.Refuses True (∃ e ∈ g.scope, ¬ e.2.Addressable)) (fun _ => True)
      ((pushShaped name op operands shape).exec g) := by
  have hinsert : ∀ g', Ends (Failure.Refuses True (∃ e ∈ g.scope, ¬ e.2.Addressable))
      (fun _ => True) ((insert name (.apply op operands shape)).run g').1 :=
    fun g' => insert_faults g' name (.apply op operands shape)
  refine Ends.exec (P := fun _ => True) ?_
  unfold pushShaped
  split
  next =>
    split
    next => trivial
    next => exact hinsert g
  next =>
    have hinfer : Ends _ _ ((ask (inferShape · op operands)).run g).1 :=
      h.inferShape_faults op operands
    refine hinfer.run_bind fun inferred g' _ => ?_
    split
    next => trivial
    next => exact hinsert g'

/-- A weight faults only where it is too large itself. -/
theorem addWeight_faults (g : Graph) (name : String) (shape : Shape) (data : Array Scalar) :
    Ends (Failure.Refuses True (¬ shape.Addressable)) (fun _ => True)
      ((addWeight name shape data).exec g) := by
  have hsize : Ends (Failure.Refuses True (¬ shape.Addressable))
      (fun n => n = shape.count ∧ shape.size = .ok shape.count)
      ((Action.ofResult (.ofFaulty shape.size) : Build Nat).run g).1 :=
    Ends.ofFaulty shape.size_ends_of_addressable
  refine (hsize.run_bind fun n g' _ => ?_).exec (P := fun _ => True)
  split
  next => trivial
  next => exact (insert_faults g' name (.weight shape)).run_bind fun x g'' _ => trivial

theorem Indexed.extendOperation_faults (h : g.Indexed) (n : Model.Operation) :
    Ends (Failure.Refuses True (∃ e ∈ g.scope, ¬ e.2.Addressable)) (fun _ => True)
      (g.extendOperation n) := by
  unfold extendOperation
  split
  next => trivial
  next =>
    refine (Result.ofExcept_ends _).bind fun operands _ => ?_
    split
    next => exact h.pushShaped_faults _ _ operands _
    next => exact h.push_faults _ _ operands

/-! ## Adding an item -/

/-- Adds an item of a model. -/
def extend (g : Graph) : Model.Item → Result GraphError Graph
  | .input i => g.extendInput i
  | .weight w => g.extendWeight w
  | .operation n => g.extendOperation n

theorem ofModel_eq (m : Model) :
    ofModel m = m.items.foldlM extend empty >>= fun g => m.outputs.foldlM extendOutput g := by
  unfold ofModel Model.items
  simp only [List.foldlM_append, List.foldlM_map, bind_assoc]
  rfl

theorem push_exec_eq_ok {name : String} {op : Op} {operands : List BufferId} :
    (push name op operands).exec g = .ok g' ↔ ∃ shape, g.inferShape op operands = .ok shape ∧
      g.find? name = none ∧ g' = g.grow name (.apply op operands shape) := by
  cases hinfer : g.inferShape op operands with
  | error why =>
    rw [Action.exec_eq_ok, push_run_of_error hinfer]
    simp
  | ok shape =>
    rw [(push_adds hinfer name).exec_eq_ok]
    simp [accepts_of_inferShape hinfer]

theorem extendOperation_eq_ok :
    g.extendOperation n = .ok g' ↔ g.find? n.name = none ∧
      ∃ e, g.IsEntry (.operation n) e ∧ g' = g.grow n.name e := by
  unfold extendOperation
  constructor
  · intro h
    cases hop : Op.ofName? n.op with
    | none => rw [hop] at h; cases h
    | some op =>
      rw [hop] at h
      obtain ⟨operands, hoperands, h⟩ := bind_eq_ok.mp h
      have hfound := mapM_eq_ok.mp (Result.ofExcept_eq_ok.mp hoperands)
      have hnamed := Op.ofName?_eq_some.mp hop
      cases hshape : n.shape with
      | some shape =>
        rw [hshape] at h
        obtain ⟨hname, haccepts, rfl⟩ := (pushShaped_adds g _ _ _ _).exec_eq_ok.mp h
        exact ⟨hname, _, .operation hnamed hfound haccepts (.inl hshape), rfl⟩
      | none =>
        rw [hshape] at h
        obtain ⟨shape, hinfer, hname, rfl⟩ := push_exec_eq_ok.mp h
        have harity : op.arity ≠ 0 := Op.withValue_arity ▸ (inferShape_eq_ok.mp hinfer).1
        exact ⟨hname, _, .operation hnamed hfound (accepts_of_inferShape hinfer)
          (.inr ⟨hshape, harity⟩), rfl⟩
  · rintro ⟨hname, e, he, rfl⟩
    cases he with
    | @operation n op operands shape hop hfound haccepts hasks =>
      rw [Op.ofName?_eq_some.mpr hop]
      refine bind_eq_ok.mpr ⟨operands, Result.ofExcept_eq_ok.mpr (mapM_eq_ok.mpr hfound), ?_⟩
      rcases hasks with hshape | ⟨hshape, harity⟩
      · rw [hshape]
        exact (pushShaped_adds g _ _ _ _).exec_eq_ok.mpr ⟨hname, haccepts, rfl⟩
      · rw [hshape]
        have harity : (op.withValue n.value).arity ≠ 0 := by rwa [Op.withValue_arity]
        exact push_exec_eq_ok.mpr ⟨shape, haccepts.inferShape_eq harity, hname, rfl⟩

/-- The values of a weight, and what keeps it from having any. -/
theorem weightData_ends (w : Model.Weight) :
    Ends (Failure.Refuses (∀ values, ¬ w.Holds values) (¬ w.shape.Addressable))
      (fun data => w.shape.size = .ok w.shape.count ∧ (data.size = w.shape.count → w.Holds data) ∧
        ∀ values, w.Holds values → values = data) (weightData w) := by
  refine (Ends.ofFaulty w.shape.size_ends_of_addressable).bind fun n ⟨hn, hsize⟩ => ?_
  subst hn
  split
  next data hdata hfill =>
    refine ⟨hsize, fun hlength => .data hdata hfill hlength, ?_⟩
    rintro _ (⟨hdata', -, -⟩ | hdata')
    · cases hdata.symm.trans hdata'
      rfl
    · cases hdata.symm.trans hdata'
  next data fill hdata hfill =>
    rintro _ (⟨-, hfill', -⟩ | hdata')
    · cases hfill.symm.trans hfill'
    · cases hdata.symm.trans hdata'
  next fill hdata =>
    refine (Ends.ofFaulty w.shape.reserve_ends_of_addressable).bind fun _ _ =>
      ⟨hsize, fun _ => .fill hdata, ?_⟩
    rintro _ (⟨hdata', -, -⟩ | hdata')
    · cases hdata.symm.trans hdata'
    · rfl

/-- **A weight** is added exactly when its name is new and it has values. -/
theorem extendWeight_ends (g : Graph) (w : Model.Weight) :
    Ends (Failure.Refuses (g.find? w.name = none → ∀ values, ¬ w.Holds values)
        (¬ w.shape.Addressable))
      (fun g' => g.find? w.name = none ∧ ∃ values, w.Holds values ∧
        g.Accepts (.weight w.shape values) ∧ g' = g.grow w.name (.weight w.shape values))
      (g.extendWeight w) := by
  refine ((weightData_ends w).weaken fun why h => h.imp (fun hbad _ => hbad) id).bind ?_
  rintro data ⟨hsize, hholds, hunique⟩
  have hadds := addWeight_adds g w.name w.shape data
  refine .refuses (addWeight_faults g w.name w.shape data) ?_ ?_
  · intro g' h
    obtain ⟨hname, haccepts, hg⟩ := hadds.exec_eq_ok.mp h
    have hlength : data.size = w.shape.count := Except.ok.inj (haccepts.symm.trans hsize)
    exact ⟨hname, data, hholds hlength, haccepts, hg⟩
  · intro e h hname values hvalues
    cases hunique values hvalues
    have haccepts : g.Accepts (.weight w.shape data) := by
      rw [Accepts, hsize, hvalues.size_eq]
    cases h.symm.trans (hadds.exec_eq_ok.mpr ⟨hname, haccepts, rfl⟩)

/-- The item is a weight with more values than can be addressed, or a node of the graph has more. -/
def Strains (g : Graph) (item : Model.Item) : Prop :=
  (∃ w, item = .weight w ∧ ¬ w.shape.Addressable) ∨ ∃ e ∈ g.scope, ¬ e.2.Addressable

/-- **One item** is added exactly when its name is new and there is an entry for it, unless a number
of values is too large. -/
theorem Indexed.extend_ends (h : g.Indexed) (item : Model.Item) :
    Ends (Failure.Refuses (g.find? item.name = none → ∀ e, ¬ g.IsEntry item e)
        (g.Strains item))
      (fun g' => g.find? item.name = none ∧ ∃ e, g.IsEntry item e ∧ g.Accepts e ∧
        g' = g.grow item.name e)
      (g.extend item) := by
  cases item with
  | input i =>
    have hadds := addInput_adds g i.name i.shape
    have hfaults : Ends (Failure.Refuses True (g.Strains (.input i))) (fun _ => True)
        ((addInput i.name i.shape).exec g) := (insert_faults g i.name (.input i.shape)).exec
    refine .refuses hfaults ?_ ?_
    · intro g' hg
      obtain ⟨hname, haccepts, hg⟩ := hadds.exec_eq_ok.mp hg
      exact ⟨hname, _, .input, haccepts, hg⟩
    · intro e he hname
      cases he.symm.trans (hadds.exec_eq_ok.mpr ⟨hname, trivial, rfl⟩)
  | weight w =>
    refine ((extendWeight_ends g w).weaken fun why h => h.imp ?_ fun h => .inl ⟨w, rfl, h⟩).imp ?_
    · intro hbad hname e he
      cases he with | weight hvalues => exact hbad hname _ hvalues
    · rintro g' ⟨hname, values, hvalues, haccepts, hg⟩
      exact ⟨hname, _, .weight hvalues, haccepts, hg⟩
  | operation n =>
    refine .refuses ((h.extendOperation_faults n).weaken fun why h => h.imp id .inr) ?_ ?_
    · intro g' hg
      obtain ⟨hname, e, he, hg⟩ := extendOperation_eq_ok.mp hg
      have haccepts : g.Accepts e := by
        cases he with | operation _ _ haccepts _ => exact haccepts
      exact ⟨hname, e, he, haccepts, hg⟩
    · intro why hwhy hname e he
      cases hwhy.symm.trans (extendOperation_eq_ok.mpr ⟨hname, e, he, rfl⟩)

/-! ## Adding all items -/

/-- The id has the entry of the item: its node, and its values if it is a weight. -/
def HasItem (g : Graph) (x : BufferId) (item : Model.Item) : Prop :=
  ∃ e, g.IsEntry item e ∧ g.node? x = some e.node ∧ g.initializers[x]? = e.values?

/-- The nodes of the graph are the items, in their order. -/
structure Represents (g : Graph) (items : List Model.Item) : Prop where
  built : g.Built
  outputs : g.outputs = []
  labels : g.labels.toList = items.map Model.Item.name
  holds : ∀ i item, items[i]? = some item → g.HasItem (.ofNat i) item
  declares : Model.Declares [] items g.scope
  /-- What is declared after the items is declared in the scope of the graph. -/
  remaining : ∀ rest scope, Model.Declares [] (items ++ rest) scope →
    Model.Declares g.scope rest scope

namespace Represents

variable {items : List Model.Item}

theorem empty : Graph.empty.Represents [] :=
  ⟨.empty, rfl, rfl, fun _ _ h => (nomatch h), .nil, fun _ _ h => h⟩

theorem size_eq (h : g.Represents items) : g.size = items.length := by
  have hlength := congrArg List.length h.labels
  rw [Array.length_toList, List.length_map] at hlength
  exact h.built.indexed.labelled.symm.trans hlength

theorem hasShape_iff (h : g.Represents items) (hids : items.length ≤ UInt32.size) :
    item.HasShape g.scope shape ↔ ∃ e, g.IsEntry item e ∧ e.node.shape = shape :=
  h.built.indexed.hasShape_scope (h.size_eq ▸ hids)

/-- An item that was there keeps its entry, and the new one has its own at the next position. -/
theorem hasItem_grow (h : g.Represents items) (hids : items.length < UInt32.size)
    (hname : g.find? item.name = none) (he : g.IsEntry item e) {i : Nat} {other : Model.Item}
    (hi : (items ++ [item])[i]? = some other) :
    (g.grow item.name e).HasItem (.ofNat i) other := by
  have hlt : g.size < UInt32.size := h.size_eq ▸ hids
  have hmono : ∀ item' e', g.IsEntry item' e' → (g.grow item.name e).IsEntry item' e' :=
    fun item' e' he' => he'.mono (extends_grow g item.name e) fun _ _ hx => find_grow hname hx
  have hbound : i < items.length + 1 := by
    simpa using (List.getElem?_eq_some_iff.mp hi).1
  have hindex : (BufferId.ofNat i).index = i := BufferId.index_ofNat (by omega)
  have hinitialized := h.built.initialized (Nat.le_of_lt hlt)
  unfold HasItem
  rw [node?_grow, hinitialized.getElem?_grow hlt, hindex, h.size_eq]
  by_cases hlast : i = items.length
  · subst hlast
    rw [List.getElem?_concat_length] at hi
    cases hi
    exact ⟨e, hmono _ _ he, if_pos rfl, if_pos rfl⟩
  · rw [List.getElem?_append_left (by omega)] at hi
    obtain ⟨e', he', hnode, hold⟩ := h.holds i other hi
    exact ⟨e', hmono _ _ he', (if_neg hlast).trans hnode, (if_neg hlast).trans hold⟩

theorem grow (h : g.Represents items) (hids : items.length < UInt32.size)
    (hname : g.find? item.name = none) (he : g.IsEntry item e) (haccepts : g.Accepts e) :
    (g.grow item.name e).Represents (items ++ [item]) where
  built := h.built.grow hname haccepts
  outputs := h.outputs
  labels := by
    rw [Graph.grow, Array.toList_push, h.labels, List.map_append]
    rfl
  holds _ _ hi := h.hasItem_grow hids hname he hi
  declares := by
    rw [h.built.indexed.scope_grow]
    exact h.declares.snoc ((h.hasShape_iff (Nat.le_of_lt hids)).mpr ⟨e, he, rfl⟩)
  remaining rest scope hrest := by
    rw [List.append_assoc, List.singleton_append] at hrest
    obtain _ | ⟨hshape, hrest⟩ := h.remaining (item :: rest) scope hrest
    obtain ⟨e', he', rfl⟩ := (h.hasShape_iff (Nat.le_of_lt hids)).mp hshape
    rwa [h.built.indexed.scope_grow, he.shape_eq he']

end Represents

/-- **Adding all items** gives a graph that has them as its nodes, unless the model is not well
formed or a number of values is too large. -/
theorem extend_run (hids : m.items.length ≤ UInt32.size) :
    Ends (Failure.Refuses (¬ m.WellFormed) m.Large) (fun g => g.Represents m.items)
      (m.items.foldlM extend empty) := by
  refine Ends.foldlM (I := fun items g => Represents g items) .empty ?_
  intro done item rest g hitems hrep
  have hdone : done.length < UInt32.size := by
    have hlength := congrArg List.length hitems
    rw [List.length_append, List.length_cons] at hlength
    omega
  refine ((hrep.built.indexed.extend_ends item).weaken fun why h => h.imp ?_ ?_).imp ?_
  · rintro hbad ⟨hdistinct, ⟨scope, hdeclared⟩, -⟩
    obtain _ | ⟨hshape, -⟩ := hrep.remaining (item :: rest) scope (hitems ▸ hdeclared)
    obtain ⟨e, he, -⟩ := (hrep.hasShape_iff (Nat.le_of_lt hdone)).mp hshape
    refine hbad (hrep.built.indexed.find?_eq_none.mpr fun hmem => ?_) e he
    rw [Model.names, hitems, List.map_append, List.map_cons] at hdistinct
    rw [hrep.labels] at hmem
    exact (List.nodup_append.mp hdistinct).2.2 _ hmem _ List.mem_cons_self rfl
  · rintro (⟨w, rfl, hw⟩ | hlarge)
    · have hmem : Model.Item.weight w ∈ m.items :=
        hitems ▸ List.mem_append_right _ List.mem_cons_self
      exact .inl ⟨w, by simpa [Model.items] using hmem, hw⟩
    · exact .inr ⟨done, g.scope, ⟨item :: rest, hitems.symm⟩, hrep.declares, hlarge⟩
  · rintro g' ⟨hname, e, he, haccepts, rfl⟩
    exact hrep.grow hdone hname he haccepts

/-! ## Outputs -/

/-- One output is wanted exactly when its name is found. -/
theorem Indexed.extendOutput_ends (h : g.Indexed) (hids : g.size ≤ UInt32.size) (name : String) :
    Ends (Failure.Refuses (name ∉ g.labels.toList) False)
      (fun g' => ∃ x, g.find name = .ok x ∧ (g.call (.markOutput x)).2 = g' ∧
        g' = { g with outputs := g.outputs ++ [x] }) (g.extendOutput name) := by
  unfold extendOutput
  cases hfind : g.find name with
  | error e =>
    intro hmem
    obtain ⟨x, hx⟩ := h.exists_find.mpr hmem
    cases hfind.symm.trans hx
  | ok x =>
    obtain ⟨⟨node, hnode⟩, -⟩ := h.label_of_find? hids (find_eq_ok.mp hfind)
    have hmark := markOutput_run_of_node hnode
    change Ends _ _ ((markOutput x).exec g)
    rw [Action.exec_eq_ok.mpr ⟨(), hmark⟩]
    exact ⟨x, rfl, congrArg Prod.snd hmark, rfl⟩

/-- `g'` is `g` with the nodes of these names as further outputs. -/
def Wants (g : Graph) (names : List String) (g' : Graph) : Prop :=
  g'.Built ∧ ∃ xs, List.Forall₂ (fun name x => g.find name = .ok x) names xs ∧
    g' = { g with outputs := g.outputs ++ xs }

/-- **The outputs** are added in their order, unless a name is not found. -/
theorem extendOutput_run (hg : g.Built) (hids : g.size ≤ UInt32.size) (names : List String) :
    Ends (Failure.Refuses (∃ name ∈ names, name ∉ g.labels.toList) False) (g.Wants names)
      (names.foldlM extendOutput g) := by
  refine Ends.foldlM (I := g.Wants) ⟨hg, [], .nil, by rw [List.append_nil]⟩ ?_
  rintro done name rest g₁ hnames ⟨hbuilt, xs, hxs, rfl⟩
  have hmem : name ∈ names := hnames ▸ List.mem_append_right _ List.mem_cons_self
  -- what is found does not depend on the outputs
  have hone := hbuilt.indexed.extendOutput_ends hids name
  refine (hone.weaken fun why h => h.imp (fun hbad => ⟨name, hmem, hbad⟩) id).imp ?_
  rintro g' ⟨x, hx, hcall, rfl⟩
  refine ⟨hcall ▸ hbuilt.call (.markOutput x), xs ++ [x], List.rel_append hxs (.cons hx .nil), ?_⟩
  rw [List.append_assoc]

/-! ## Models -/

/-- The graph has the items of the model as its nodes, in their order and under their names, and the
outputs of the model as its outputs. -/
structure Describes (g : Graph) (m : Model) : Prop where
  built : g.Built
  size : g.size = m.items.length
  /-- The id of an item is its position. -/
  item : ∀ i item, m.items[i]? = some item →
    g.label (.ofNat i) = item.name ∧ g.find item.name = .ok (.ofNat i) ∧
      g.HasItem (.ofNat i) item
  outputs : List.Forall₂ (fun name x => g.find name = .ok x) m.outputs g.outputs

theorem Represents.describes (h : g.Represents m.items) (hids : m.items.length ≤ UInt32.size)
    (hout : g.Wants m.outputs g') : g'.Describes m := by
  obtain ⟨hbuilt, xs, hxs, rfl⟩ := hout
  refine ⟨hbuilt, h.size_eq, fun i item hi => ?_, ?_⟩
  · have hlabels : g.labels[i]? = some item.name := by
      rw [← Array.getElem?_toList, h.labels, List.getElem?_map, hi]
      rfl
    have hindexed := h.built.indexed
    have hfind := (hindexed.found item.name _).mpr ⟨i, hlabels, rfl⟩
    obtain ⟨e, he, hnode, hvalues⟩ := h.holds i item hi
    exact ⟨(hindexed.label_ofNat (h.size_eq ▸ hids) hlabels).2, find_eq_ok.mpr hfind, e,
      he.mono (fun _ _ hx => hx) fun _ _ hx => hx, hnode, hvalues⟩
  · rw [h.outputs, List.nil_append]
    exact hxs

/-- **Exactly the well-formed models are accepted.** As long as ids are enough for all items,
building the graph of a model faults only where a number of values is too large; if it does not, the
graph is built exactly when the model is well formed; and what is built is the graph that the model
describes. -/
theorem ofModel_accepts (hids : m.items.length ≤ UInt32.size) :
    (∀ f, ofModel m = .error (.fault f) → f.Overflow m.Large) ∧
      ((∀ f, ofModel m ≠ .error (.fault f)) → ((∃ g, ofModel m = .ok g) ↔ m.WellFormed)) ∧
      ∀ g, ofModel m = .ok g → g.Describes m := by
  have hends : Ends (Failure.Refuses (¬ m.WellFormed) m.Large)
      (fun g => m.WellFormed ∧ g.Describes m) (ofModel m) := by
    rw [ofModel_eq]
    refine (extend_run hids).bind fun g hrep => ?_
    have hnames : g.labels.toList = m.names := hrep.labels
    refine ((extendOutput_run hrep.built (hrep.size_eq ▸ hids) m.outputs).weaken fun why h =>
      h.imp ?_ False.elim).imp fun g' hout => ⟨⟨?_, ⟨g.scope, hrep.declares⟩, ?_⟩,
        hrep.describes hids hout⟩
    · rintro ⟨name, hname, hunknown⟩ hm
      exact hunknown (hnames ▸ hm.outputs name hname)
    · exact hnames ▸ hrep.built.indexed.distinct
    · intro name hname
      obtain ⟨-, xs, hxs, -⟩ := hout
      obtain ⟨x, -, hx⟩ := exists_of_forall₂ hxs hname
      exact hnames ▸ hrep.built.indexed.exists_find.mp ⟨x, hx⟩
  refine ⟨fun f hf => ?_, fun hfree => ⟨?_, fun hm => ?_⟩, fun g hg => ?_⟩
  · rw [hf] at hends
    exact hends
  · rintro ⟨g, hg⟩
    rw [hg] at hends
    exact hends.1
  · cases hmodel : ofModel m with
    | ok g => exact ⟨g, rfl⟩
    | error why =>
      cases why with
      | error e =>
        rw [hmodel] at hends
        exact absurd hm hends
      | fault f => exact absurd hmodel (hfree f)
  · rw [hg] at hends
    exact hends.2

/-- Weights with values, with one value for all and with none, names of operations in other cases,
an operation without operands, and an output that is wanted twice; and the same with an operation
that refers to a later one, which makes the model ill formed. -/
theorem ofModel_accepts_layer :
    let x := BufferId.ofNat
    let sum : Model.Operation := ⟨"s", "ADD", ["x", "w"], none, none⟩
    let fold : Model.Operation := ⟨"t", "Reduce_Sum", ["s"], some [2], none⟩
    let m : Model := {
      inputs := [⟨"x", [2, 3]⟩]
      weights := [⟨"w", [3], some [1, 2, 3], none⟩, ⟨"b", [2, 2], none, some 7⟩,
        ⟨"z", [], none, none⟩]
      operations := [sum, ⟨"one", "fILL", [], some [1], some 5⟩, fold]
      outputs := ["t", "x", "t"] }
    let m' : Model := { m with operations := [fold, sum] }
    m.items.length ≤ UInt32.size ∧ m.WellFormed ∧ ¬ m'.WellFormed ∧ ∃ g, ofModel m = .ok g ∧
      g.Describes m ∧ g.node? (x 2) = some (.weight [2, 2]) ∧
      g.initializers[x 2]? = some #[7, 7, 7, 7] ∧
      g.node? (x 5) = some (.apply (.fill 5) [] [1]) ∧ g.outputs = [x 6, x 0, x 6] := by
  intro x sum fold m m'
  have hids : m.items.length ≤ UInt32.size := by decide
  obtain ⟨-, haccepts, hdescribes⟩ := ofModel_accepts hids
  have hids' : m'.items.length ≤ UInt32.size := by decide
  obtain ⟨-, haccepts', -⟩ := ofModel_accepts hids'
  have hbuilt : (ofModel m).toOption.map
      (fun g => (g.node? (x 2), g.initializers[x 2]?, g.node? (x 5), g.outputs)) =
      some (some (.weight [2, 2]), some #[7, 7, 7, 7], some (.apply (.fill 5) [] [1]),
        [x 6, x 0, x 6]) := by decide +kernel
  obtain ⟨g, hg, hparts⟩ := Option.map_eq_some_iff.mp hbuilt
  have hg : ofModel m = .ok g := toOption_eq_some.mp hg
  have hm : m.WellFormed := (haccepts fun f hf => nomatch hg.symm.trans hf).mp ⟨g, hg⟩
  have hrefused : (match ofModel m' with | .error (.error _) => true | _ => false) = true := by
    decide +kernel
  have hm' : ¬ m'.WellFormed := fun hm' => by
    obtain ⟨g', hg'⟩ := (haccepts' fun f hf => by rw [hf] at hrefused; cases hrefused).mpr hm'
    rw [hg'] at hrefused
    cases hrefused
  simp only [Prod.mk.injEq] at hparts
  exact ⟨hids, hm, hm', g, hg, hdescribes g hg, hparts⟩

end Graph

end Staging
