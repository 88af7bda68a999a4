import Mathlib.Data.List.Forall2
import Staging.Proofs.Shape

/-!
# Row-major positions

An array of a shape has a value for every multi-index, which has a coordinate below each dimension
(`Shape.Inside`). The values stand in row-major order: `Shape.position` is the place of a
multi-index, a number in mixed radix whose digits are the coordinates. Positions lie inside of the
array (`Shape.position_lt`), every place inside is the position of a multi-index
(`Shape.exists_position`), and the position in an array of arrays is made of a position among the
arrays and one inside of the array (`Shape.position_append`).
-/

namespace Staging.Shape

variable {s front : Shape} {index rest : List Nat}

/-- A multi-index of an array of this shape: a coordinate for each dimension, and below it. -/
def Inside (s : Shape) (index : List Nat) : Prop := List.Forall₂ (· < ·) index s

/-- The place of a multi-index in row-major order. -/
def position : Shape → List Nat → Nat
  | _ :: s, i :: index => i * count s + position s index
  | _, _ => 0

theorem position_nil (index : List Nat) : position [] index = 0 := rfl

theorem position_cons (d i : Nat) (s : Shape) (index : List Nat) :
    position (d :: s) (i :: index) = i * s.count + s.position index := rfl

/-- **Positions lie inside of the array.** -/
theorem position_lt (h : s.Inside index) : s.position index < s.count := by
  induction h with
  | nil => exact Nat.one_pos
  | @cons i d index s hi _ ih =>
    rw [position_cons, count_cons]
    calc i * count s + position s index < i * count s + count s := Nat.add_lt_add_left ih _
      _ = (i + 1) * count s := (Nat.succ_mul i _).symm
      _ ≤ d * count s := Nat.mul_le_mul_right _ hi

/-- The position in an array of arrays. -/
theorem position_append (h : front.Inside index) :
    position (front ++ s) (index ++ rest) = front.position index * s.count + s.position rest := by
  induction h with
  | nil => rw [List.nil_append, List.nil_append, position_nil, Nat.zero_mul, Nat.zero_add]
  | @cons i d index front _ _ ih =>
    rw [List.cons_append, List.cons_append, position_cons, position_cons, ih, count_append,
      Nat.add_mul, Nat.mul_assoc, Nat.add_assoc]

/-- The position in an array of rows. -/
theorem position_concat (h : front.Inside index) (width p : Nat) :
    position (front ++ [width]) (index ++ [p]) = front.position index * width + p := by
  rw [position_append h, position_cons, position_nil, count_cons]
  simp only [count, List.foldr_nil, Nat.mul_one, Nat.add_zero]

/-- **Every place is that of a multi-index.** The coordinates are found by division. -/
theorem exists_position {n : Nat} (h : n < s.count) :
    ∃ index, s.Inside index ∧ s.position index = n := by
  induction s generalizing n with
  | nil =>
    obtain rfl : n = 0 := Nat.lt_one_iff.mp h
    exact ⟨[], .nil, rfl⟩
  | cons d s ih =>
    rw [count_cons] at h
    have hpos : 0 < count s := Nat.pos_of_mul_pos_left (Nat.zero_lt_of_lt h)
    obtain ⟨index, hindex, hrest⟩ := ih (Nat.mod_lt n hpos)
    refine ⟨n / count s :: index, .cons ((Nat.div_lt_iff_lt_mul hpos).mpr h) hindex, ?_⟩
    rw [position_cons, hrest, Nat.div_add_mod']

/-- A multi-index of an array of arrays is one of the outer array and one of the inner. -/
theorem inside_append (h : (front ++ s).Inside index) :
    ∃ outer inner, index = outer ++ inner ∧ front.Inside outer ∧ s.Inside inner := by
  refine ⟨index.take front.length, index.drop front.length, ?_, ?_, ?_⟩
  · rw [List.take_append_drop]
  · exact List.forall₂_take_append index front s h
  · exact List.forall₂_drop_append index front s h

/-- The first position has no coordinate but zero. -/
theorem position_of_zeros (h : ∀ i ∈ index, i = 0) : s.position index = 0 := by
  induction index generalizing s with
  | nil => cases s <;> rfl
  | cons i index ih =>
    obtain ⟨rfl, hrest⟩ := List.forall_mem_cons.mp h
    cases s with
    | nil => rfl
    | cons d s => rw [position_cons, ih hrest, Nat.zero_mul]

end Staging.Shape
