import Mathlib.Data.List.Basic
import Staging.Proofs.Shape

/-!
# Shapes aligned from the right

Arrays are broadcast by their dimensions from the right: two aligned dimensions agree or one of them
is one, a missing dimension counts as one, and the joint array has the other one (`Shape.Joins`).
Nothing in this rule prefers one of the arrays.

`Shape.broadcast` does not go through dimensions. It asks whether one array stretches over the other
as a whole (`Shape.Stretches`) and tries the two arrays one after the other. As two arrays that
stretch over each other have the same shape (`Shape.Stretches.antisymm`), the order of the attempts
does not matter, and the shape that is found is the joint one
(`Shape.broadcast_comm_and_joins`). Not every joint shape is found: two arrays of which each has to
be stretched have none here.
-/

namespace Staging.Shape

variable {s t xs ys zs : Shape} {m n : Nat}

/-! ## The joint shape -/

/-- A dimension counted from the right, one where there is none. -/
def fromRight (s : Shape) (i : Nat) : Nat := s.reverse[i]?.getD 1

/-- The joint dimension of two aligned ones. -/
inductive Meets : Nat → Nat → Nat → Prop where
  | same (d : Nat) : Meets d d d
  | left (d : Nat) : Meets 1 d d
  | right (d : Nat) : Meets d 1 d

theorem Meets.symm {a b d : Nat} (h : Meets a b d) : Meets b a d := by
  cases h with
  | same => exact .same _
  | left => exact .right _
  | right => exact .left _

/-- The joint shape of two arrays: as many dimensions as the longer one has, each the joint
dimension of the two that stand at its place from the right. -/
structure Joins (xs ys zs : Shape) : Prop where
  rank : zs.length = max xs.length ys.length
  dimensions : ∀ i < zs.length, Meets (xs.fromRight i) (ys.fromRight i) (zs.fromRight i)

theorem Joins.symm (h : Joins xs ys zs) : Joins ys xs zs where
  rank := h.rank.trans (Nat.max_comm _ _)
  dimensions i hi := (h.dimensions i hi).symm

/-! ## Stretching one array over another -/

/-- An array of shape `s` can be repeated along the outer axes of one of shape `t`, or it is a
single value with no more axes. -/
def Stretches (s t : Shape) : Prop := s <:+ t ∨ (∀ d ∈ s, d = 1) ∧ s.length ≤ t.length

instance : Decidable (Stretches s t) := inferInstanceAs (Decidable (_ ∨ _))

theorem count_of_ones (h : ∀ d ∈ s, d = 1) : s.count = 1 := by
  induction s with
  | nil => rfl
  | cons d s ih =>
    obtain ⟨rfl, hs⟩ := List.forall_mem_cons.mp h
    rw [count_cons, ih hs]

theorem covers_iff_stretches : covers t s s.count ↔ s.Stretches t := by
  have hones : s.count = 1 ↔ ∀ d ∈ s, d = 1 := ⟨eq_one_of_count, count_of_ones⟩
  simp [covers, Stretches, hones, or_comm]

namespace Stretches

theorem length_le (h : s.Stretches t) : s.length ≤ t.length := by
  rcases h with hsuffix | ⟨-, hle⟩
  · exact hsuffix.length_le
  · exact hle

/-- **Two arrays that stretch over each other have the same shape.** -/
theorem antisymm (h : s.Stretches t) (h' : t.Stretches s) : s = t := by
  have hlength : s.length = t.length := Nat.le_antisymm h.length_le h'.length_le
  rcases h with hsuffix | ⟨hones, -⟩
  · exact hsuffix.eq_of_length hlength
  rcases h' with hsuffix | ⟨hones', -⟩
  · exact (hsuffix.eq_of_length hlength.symm).symm
  · rw [List.eq_replicate_of_mem hones, List.eq_replicate_of_mem hones', hlength]

/-- Where an array is stretched, its dimension is one. -/
theorem fromRight_eq (h : s.Stretches t) (i : Nat) :
    s.fromRight i = t.fromRight i ∨ s.fromRight i = 1 := by
  unfold fromRight
  rcases h with ⟨front, rfl⟩ | ⟨hones, -⟩
  · rw [List.reverse_append]
    by_cases hi : i < s.reverse.length
    · exact .inl (by rw [List.getElem?_append_left hi])
    · exact .inr (by rw [List.getElem?_eq_none (Nat.not_lt.mp hi)]; rfl)
  · refine .inr ?_
    cases hd : s.reverse[i]? with
    | none => rfl
    | some d => exact hones d (List.mem_reverse.mp (List.mem_of_getElem? hd))

/-- What an array stretches over is their joint shape. -/
theorem joins (h : s.Stretches t) : Joins s t t where
  rank := (Nat.max_eq_right h.length_le).symm
  dimensions i _ := by
    rcases h.fromRight_eq i with heq | hone
    · exact heq ▸ .same _
    · exact hone ▸ .left _

end Stretches

/-! ## Broadcasting -/

/-- What is found when both products can be formed. -/
theorem broadcast_of_sizes (hxs : xs.size = .ok m) (hys : ys.size = .ok n) :
    xs.broadcast ys = .ok (if ys.Stretches xs then some xs
      else if xs.Stretches ys then some ys else none) := by
  cases count_of_size hxs
  cases count_of_size hys
  simp only [broadcast, hxs, hys, bind, Except.bind, pure, Except.pure, covers_iff_stretches]

theorem broadcast_of_left_error {f : Fault} (h : xs.size = .error f) :
    xs.broadcast ys = .error .multiplyOverflow := by
  cases size_eq_error h
  simp only [broadcast, h, bind, Except.bind]

theorem broadcast_of_right_error {f : Fault} (h : ys.size = .error f) :
    xs.broadcast ys = .error .multiplyOverflow := by
  cases hxs : xs.size with
  | error f => exact broadcast_of_left_error hxs
  | ok m =>
    cases size_eq_error h
    simp only [broadcast, hxs, h, bind, Except.bind]

theorem broadcast_comm (xs ys : Shape) : xs.broadcast ys = ys.broadcast xs := by
  cases hxs : xs.size with
  | error f => rw [broadcast_of_left_error hxs, broadcast_of_right_error hxs]
  | ok m =>
    cases hys : ys.size with
    | error f => rw [broadcast_of_left_error hys, broadcast_of_right_error hys]
    | ok n =>
      rw [broadcast_of_sizes hxs hys, broadcast_of_sizes hys hxs]
      by_cases h : ys.Stretches xs <;> by_cases h' : xs.Stretches ys
      · -- the only case in which the order could matter
        rw [if_pos h, if_pos h', h.antisymm h']
      · rw [if_pos h, if_neg h', if_pos h]
      · rw [if_neg h, if_pos h', if_pos h']
      · rw [if_neg h, if_neg h', if_neg h', if_neg h]

theorem joins_of_broadcast (h : xs.broadcast ys = .ok (some zs)) : Joins xs ys zs := by
  obtain ⟨hzs, -, hxs, hys⟩ := broadcast_covers h
  rcases hzs with rfl | rfl
  · exact (covers_iff_stretches.mp hys).joins.symm
  · exact (covers_iff_stretches.mp hxs).joins

/-- **Broadcasting prefers neither array and finds their joint shape.** For all shapes, the two
orders of the arrays give the same answer, or the same fault where a product can not be formed in 64
bits; a shape that is found is the joint one; and where both products can be formed there is an
answer, which is a shape exactly when one of the arrays stretches over the other. -/
theorem broadcast_comm_and_joins (xs ys : Shape) :
    xs.broadcast ys = ys.broadcast xs ∧
    (∀ zs, xs.broadcast ys = .ok (some zs) → Joins xs ys zs) ∧
    ∀ m n, xs.size = .ok m → ys.size = .ok n → ∃ found, xs.broadcast ys = .ok found ∧
      (found.isSome ↔ xs.Stretches ys ∨ ys.Stretches xs) := by
  refine ⟨broadcast_comm xs ys, fun zs => joins_of_broadcast, fun m n hxs hys => ?_⟩
  refine ⟨_, broadcast_of_sizes hxs hys, ?_⟩
  by_cases h : ys.Stretches xs
  · simp [h]
  · by_cases h' : xs.Stretches ys <;> simp [h, h']

/-- An empty axis against a single value, ones of different ranks, and no axis against an empty
one. -/
theorem broadcast_comm_and_joins_zeros_and_ones :
    broadcast [1] [0] = .ok (some [0]) ∧ broadcast [0] [1] = .ok (some [0]) ∧ Joins [1] [0] [0] ∧
      broadcast [1] [1, 1] = .ok (some [1, 1]) ∧ Joins [1] [1, 1] [1, 1] ∧
      broadcast [] [0] = .ok (some [0]) ∧ Joins [] [0] [0] ∧
      ∃ found, broadcast [2, 1] [1, 3] = .ok found ∧ found = none := by
  have hzero := broadcast_comm_and_joins [1] [0]
  have hones := broadcast_comm_and_joins [1] [1, 1]
  have hnone := broadcast_comm_and_joins [] [0]
  refine ⟨rfl, hzero.1 ▸ rfl, hzero.2.1 _ rfl, rfl, hones.2.1 _ rfl, rfl, hnone.2.1 _ rfl, ?_⟩
  obtain ⟨found, hfound, hiff⟩ := (broadcast_comm_and_joins [2, 1] [1, 3]).2.2 2 3 rfl rfl
  have hneither : ¬ (Stretches [2, 1] [1, 3] ∨ Stretches [1, 3] [2, 1]) := by decide
  exact ⟨found, hfound, Option.not_isSome_iff_eq_none.mp fun h => hneither (hiff.mp h)⟩

end Staging.Shape
