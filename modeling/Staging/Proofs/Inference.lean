import Mathlib.Data.List.Forall2
import Staging.Graph.Basic

/-!
# The rules of shapes

Which shape an operation makes of the shapes of its operands is said by rules, one for each kind of
operation (`Op.Makes`). Inference gives a shape exactly when the operands are nodes and their shapes
make it (`Graph.inferShape_eq_ok`).
-/

namespace Staging

/-- An operation makes an array of a shape from arrays of given shapes. Without operands, any shape
may be asked for. -/
inductive Op.Makes : Op → List Shape → Shape → Prop where
  | given {op : Op} {shape : Shape} : op.arity = 0 → Makes op [] shape
  | unary {op : UnaryOp} {xs : Shape} : Makes (.unary op) [xs] xs
  | reduce {op : ReduceOp} {xs : Shape} : Makes (.reduce op) [xs] xs.dropLast
  | binary {op : BinaryOp} {xs ys shape : Shape} :
      xs.broadcast ys = .ok (some shape) → Makes (.binary op) [xs, ys] shape
  | matmul {m k n : Nat} : Makes .matmul [[m, k], [k, n]] [m, n]

theorem Shape.product?_eq_some {xs ys shape : Shape} :
    xs.product? ys = some shape ↔ ∃ m k n, xs = [m, k] ∧ ys = [k, n] ∧ shape = [m, n] := by
  unfold product?
  split
  next m k k' n =>
    by_cases hk : k = k'
    · subst hk
      simp [eq_comm]
    · simp only [if_neg hk, reduceCtorEq, false_iff]
      rintro ⟨m', k₁, n', hxs, hys, -⟩
      cases hxs
      cases hys
      exact hk rfl
  next hne =>
    simp only [reduceCtorEq, false_iff]
    rintro ⟨m, k, n, rfl, rfl, -⟩
    exact hne m k k n rfl rfl

theorem getElem?_of_forall₂ {α β : Type} {R : α → β → Prop} {l : List α} {l' : List β}
    (h : List.Forall₂ R l l') {i : Nat} {a : α} (hi : l[i]? = some a) :
    ∃ b, l'[i]? = some b ∧ R a b := by
  induction h generalizing i with
  | nil => cases hi
  | cons hhead _ ih =>
    cases i with
    | zero =>
      cases hi
      exact ⟨_, rfl, hhead⟩
    | succ i => exact ih hi

theorem exists_of_forall₂ {α β : Type} {R : α → β → Prop} {l : List α} {l' : List β}
    (h : List.Forall₂ R l l') {a : α} (ha : a ∈ l) : ∃ b ∈ l', R a b := by
  obtain ⟨i, hi⟩ := List.mem_iff_getElem?.mp ha
  obtain ⟨b, hb, hr⟩ := getElem?_of_forall₂ h hi
  exact ⟨b, List.mem_of_getElem? hb, hr⟩

/-- A computation on each member of a list succeeds when all of them do. -/
theorem mapM_eq_ok {ε α β : Type} {f : α → Except ε β} {l : List α} {l' : List β} :
    l.mapM f = .ok l' ↔ List.Forall₂ (fun a b => f a = .ok b) l l' := by
  induction l generalizing l' with
  | nil => simp [pure, Except.pure, eq_comm]
  | cons a l ih =>
    rw [List.mapM_cons, List.forall₂_cons_left_iff]
    constructor
    · intro h
      obtain ⟨b, hb, h⟩ := bind_eq_ok.mp h
      obtain ⟨rest, hrest, h⟩ := bind_eq_ok.mp h
      cases h
      exact ⟨b, rest, hb, ih.mp hrest, rfl⟩
    · rintro ⟨b, rest, hb, hrest, rfl⟩
      exact bind_eq_ok.mpr ⟨b, hb, bind_eq_ok.mpr ⟨rest, ih.mpr hrest, rfl⟩⟩

/-- An operation takes as many operands as it has rules for. -/
theorem Op.Makes.length_eq {op : Op} {shapes : List Shape} {shape : Shape}
    (h : op.Makes shapes shape) : shapes.length = op.arity := by
  cases h with
  | given h => exact h.symm
  | _ => rfl

namespace Graph

variable {g : Graph} {node : Node} {x : BufferId} {op : Op} {operands : List BufferId}
  {shapes : List Shape} {shape : Shape}

theorem node_eq_ok : g.node x = .ok node ↔ g.node? x = some node := by
  unfold Graph.node
  cases g.node? x <;> simp

theorem shape_eq_ok :
    g.shape x = .ok shape ↔ ∃ n, g.node? x = some n ∧ n.shape = shape := by
  unfold Graph.shape Graph.node
  cases g.node? x <;> simp [Except.map]

/-- The operands are nodes of these shapes. -/
def Shaped (g : Graph) (operands : List BufferId) (shapes : List Shape) : Prop :=
  List.Forall₂ (fun x xs => g.shape x = .ok xs) operands shapes

theorem Shaped.shape_of_mem (h : g.Shaped operands shapes) (hx : x ∈ operands) :
    ∃ xs ∈ shapes, g.shape x = .ok xs :=
  exists_of_forall₂ h hx

theorem Shaped.operand_of_mem (h : g.Shaped operands shapes) (hshape : shape ∈ shapes) :
    ∃ x ∈ operands, g.shape x = .ok shape :=
  exists_of_forall₂ h.flip hshape

/-- An inferred shape follows the rules. -/
theorem makes_of_inferShape (h : g.inferShape op operands = .ok shape) :
    op.arity ≠ 0 ∧ ∃ shapes, g.Shaped operands shapes ∧ op.Makes shapes shape := by
  unfold inferShape at h
  split at h
  next => cases h
  next hlen =>
    split at h
    next =>
      have hx := Result.ofExcept_eq_ok.mp h
      exact ⟨Nat.one_ne_zero, [shape], .cons hx .nil, .unary⟩
    next =>
      obtain ⟨xs, hx, rfl⟩ := map_eq_ok.mp (Result.ofExcept_eq_ok.mp h)
      exact ⟨Nat.one_ne_zero, [xs], .cons hx .nil, .reduce⟩
    next =>
      obtain ⟨xs, hxs, h⟩ := bind_eq_ok.mp h
      obtain ⟨ys, hys, h⟩ := bind_eq_ok.mp h
      obtain ⟨joint, hjoint, h⟩ := bind_eq_ok.mp h
      cases joint with
      | none => cases h
      | some shape' =>
        cases h
        exact ⟨Nat.succ_ne_zero 1, [xs, ys], .cons (Result.ofExcept_eq_ok.mp hxs)
          (.cons (Result.ofExcept_eq_ok.mp hys) .nil), .binary (Result.ofFaulty_eq_ok.mp hjoint)⟩
    next =>
      obtain ⟨xs, hxs, h⟩ := bind_eq_ok.mp h
      obtain ⟨ys, hys, h⟩ := bind_eq_ok.mp h
      cases hprod : xs.product? ys with
      | none => rw [hprod] at h; cases h
      | some shape' =>
        rw [hprod] at h
        cases h
        obtain ⟨m, k, n, rfl, rfl, rfl⟩ := Shape.product?_eq_some.mp hprod
        exact ⟨Nat.succ_ne_zero 1, [[m, k], [k, n]], .cons (Result.ofExcept_eq_ok.mp hxs)
          (.cons (Result.ofExcept_eq_ok.mp hys) .nil), .matmul⟩
    next => cases h

/-- Every shape that follows the rules is inferred. -/
theorem inferShape_of_makes (harity : op.arity ≠ 0) (hshapes : g.Shaped operands shapes)
    (hmakes : op.Makes shapes shape) : g.inferShape op operands = .ok shape := by
  unfold inferShape
  cases hmakes with
  | given h => exact absurd h harity
  | unary =>
    obtain _ | ⟨hx, _ | _⟩ := hshapes
    exact Result.ofExcept_eq_ok.mpr hx
  | reduce =>
    obtain _ | ⟨hx, _ | _⟩ := hshapes
    exact Result.ofExcept_eq_ok.mpr (map_eq_ok.mpr ⟨_, hx, rfl⟩)
  | binary hjoint =>
    obtain _ | ⟨hx, _ | ⟨hy, _ | _⟩⟩ := hshapes
    refine bind_eq_ok.mpr ⟨_, Result.ofExcept_eq_ok.mpr hx, ?_⟩
    refine bind_eq_ok.mpr ⟨_, Result.ofExcept_eq_ok.mpr hy, ?_⟩
    exact bind_eq_ok.mpr ⟨_, Result.ofFaulty_eq_ok.mpr hjoint, rfl⟩
  | matmul =>
    obtain _ | ⟨hx, _ | ⟨hy, _ | _⟩⟩ := hshapes
    refine bind_eq_ok.mpr ⟨_, Result.ofExcept_eq_ok.mpr hx, ?_⟩
    refine bind_eq_ok.mpr ⟨_, Result.ofExcept_eq_ok.mpr hy, ?_⟩
    rw [Shape.product?_eq_some.mpr ⟨_, _, _, rfl, rfl, rfl⟩]
    rfl

/-- **Inference is the rules of shapes**, read over the nodes of a graph. -/
theorem inferShape_eq_ok :
    g.inferShape op operands = .ok shape ↔
      op.arity ≠ 0 ∧ ∃ shapes, g.Shaped operands shapes ∧ op.Makes shapes shape :=
  ⟨makes_of_inferShape, fun ⟨harity, _, hshapes, hmakes⟩ =>
    inferShape_of_makes harity hshapes hmakes⟩

/-- An inferred shape comes from as many operands as the operation takes, and all of them are
nodes. -/
theorem inferShape_ok (h : g.inferShape op operands = .ok shape) :
    operands.length = op.arity ∧ ∀ x ∈ operands, ∃ n, g.node? x = some n := by
  obtain ⟨-, shapes, hshapes, hmakes⟩ := makes_of_inferShape h
  refine ⟨hshapes.length_eq.trans hmakes.length_eq, fun x hx => ?_⟩
  obtain ⟨xs, -, hxs⟩ := hshapes.shape_of_mem hx
  obtain ⟨n, hn, -⟩ := shape_eq_ok.mp hxs
  exact ⟨n, hn⟩

end Graph

end Staging
