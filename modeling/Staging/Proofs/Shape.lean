import Staging.Shape

/-!
# Counting values

The size of a shape, where it has one, is the number of its values (`Shape.count_of_size`). A shape
without an empty axis has a size whenever that number is one (`Shape.size_of_nonzero`), because then
no partial product is larger than the whole.

Operands that broadcast can be repeated to fill the joint shape: the number of their values divides
that of the joint shape (`Shape.broadcast_cases`).
-/

namespace Staging.Shape

variable {s xs ys zs : Shape} {n : Nat}

/-! ## Numbers of values -/

theorem count_cons (d : Nat) (s : Shape) : count (d :: s) = d * s.count := rfl

theorem count_pair (m n : Nat) : count [m, n] = m * n := congrArg (m * ·) (Nat.mul_one n)

theorem count_append (xs ys : Shape) : count (xs ++ ys) = xs.count * ys.count := by
  induction xs with
  | nil => exact (Nat.one_mul _).symm
  | cons d xs ih => rw [List.cons_append, count_cons, count_cons, ih, Nat.mul_assoc]

/-- There are values unless an axis is empty. -/
theorem count_pos (h : 0 ∉ s) : 0 < s.count := by
  induction s with
  | nil => exact Nat.one_pos
  | cons d s ih =>
    obtain ⟨hd, hs⟩ := List.ne_and_not_mem_of_not_mem_cons h
    exact Nat.mul_pos (Nat.pos_of_ne_zero (Ne.symm hd)) (ih hs)

/-- There are no values exactly when an axis is empty. -/
theorem count_eq_zero : s.count = 0 ↔ 0 ∈ s := by
  refine ⟨fun h => Decidable.byContradiction fun hs => Nat.ne_of_gt (count_pos hs) h, fun h => ?_⟩
  induction s with
  | nil => cases h
  | cons d s ih =>
    rw [count_cons]
    rcases List.mem_cons.mp h with rfl | h
    · exact Nat.zero_mul _
    · rw [ih h, Nat.mul_zero]

/-- A single value has axes of length one only. -/
theorem eq_one_of_count (h : s.count = 1) : ∀ d ∈ s, d = 1 := by
  induction s with
  | nil => exact fun _ hd => absurd hd List.not_mem_nil
  | cons d s ih =>
    rw [count_cons] at h
    exact List.forall_mem_cons.mpr ⟨Nat.eq_one_of_mul_eq_one_right h,
      ih (Nat.eq_one_of_mul_eq_one_left h)⟩

theorem count_dvd_of_suffix (h : ys <:+ xs) : ys.count ∣ xs.count := by
  obtain ⟨front, rfl⟩ := h
  exact ⟨count front, by rw [count_append, Nat.mul_comm]⟩

theorem count_concat (front : Shape) (d : Nat) : count (front ++ [d]) = count front * d := by
  rw [count_append, count_cons]
  exact congrArg _ (Nat.mul_one d)

theorem last_concat (front : Shape) (d : Nat) : last (front ++ [d]) = d := by
  rw [last, List.getLast?_concat, Option.getD_some]

/-- The rows are counted by all axes but the last. -/
theorem count_front (s : Shape) : count (List.dropLast s) = s.dropLast.count := by
  unfold dropLast
  split
  next => rfl
  next h =>
    match s with
    | [] => rfl
    | [_] => rfl
    | _ :: _ :: _ => simp at h

theorem count_dropLast_concat (front : Shape) (d : Nat) :
    (dropLast (front ++ [d])).count = count front := by
  rw [← count_front, List.dropLast_concat]

/-- An array is made of rows along its last axis. -/
theorem count_eq_rows_mul_last (s : Shape) : s.count = s.dropLast.count * s.last := by
  rcases List.eq_nil_or_concat s with rfl | ⟨front, d, rfl⟩
  · rfl
  · rw [List.concat_eq_append, count_concat, count_dropLast_concat, last_concat]

theorem zero_not_mem_dropLast (h : 0 ∉ s) : 0 ∉ s.dropLast := by
  unfold dropLast
  split
  next => exact fun hmem => h ((List.dropLast_sublist s).subset hmem)
  next => exact (by decide)

/-- A row has values unless an axis is empty. -/
theorem last_pos (h : 0 ∉ s) : 0 < s.last :=
  Nat.pos_of_mul_pos_left (count_eq_rows_mul_last s ▸ count_pos h)

/-! ## Sizes -/

private theorem foldlM_mul_eq_ok {a : Nat} (h : s.foldlM Size.mul a = .ok n) : n = a * s.count := by
  induction s generalizing a with
  | nil =>
    cases h
    exact (Nat.mul_one _).symm
  | cons d s ih =>
    rw [List.foldlM_cons] at h
    obtain ⟨b, hb, h⟩ := bind_eq_ok.mp h
    rw [ih h, (Size.mul_eq_ok.mp hb).1, count_cons, Nat.mul_assoc]

/-- A size is the number of values. -/
theorem count_of_size (h : s.size = .ok n) : n = s.count := by
  rw [foldlM_mul_eq_ok h, Nat.one_mul]

private theorem foldlM_mul_of_nonzero {a : Nat} (h : 0 ∉ s) (hlt : a * s.count < Size.limit) :
    s.foldlM Size.mul a = .ok (a * s.count) := by
  induction s generalizing a with
  | nil => exact congrArg Except.ok (Nat.mul_one a).symm
  | cons d s ih =>
    obtain ⟨-, hs⟩ := List.ne_and_not_mem_of_not_mem_cons h
    rw [count_cons, ← Nat.mul_assoc] at hlt ⊢
    -- the product so far is at most the whole product
    have hle : a * d ≤ a * d * count s := Nat.le_mul_of_pos_right _ (count_pos hs)
    have hmul : Size.mul a d = .ok (a * d) :=
      Size.mul_eq_ok.mpr ⟨rfl, Nat.lt_of_le_of_lt hle hlt⟩
    rw [List.foldlM_cons, hmul]
    exact ih hs hlt

/-- Without an empty axis, a number of values that fits into a word is the size. -/
theorem size_of_nonzero (h : 0 ∉ s) (hlt : s.count < Size.limit) : s.size = .ok s.count := by
  have hone := Nat.one_mul s.count
  rw [size, foldlM_mul_of_nonzero h (hone.symm ▸ hlt), hone]

private theorem foldlM_mul_eq_error {a : Nat} {f : Fault} (h : s.foldlM Size.mul a = .error f) :
    f = .multiplyOverflow := by
  induction s generalizing a with
  | nil => cases h
  | cons d s ih =>
    rw [List.foldlM_cons] at h
    unfold Size.mul at h
    split at h
    next => exact ih h
    next => cases h; rfl

/-- A shape with a size has one without its last axes too. -/
theorem exists_size_of_append (h : (xs ++ ys).size = .ok n) : ∃ k, xs.size = .ok k := by
  unfold size at h ⊢
  rw [List.foldlM_append] at h
  obtain ⟨k, hk, -⟩ := bind_eq_ok.mp h
  exact ⟨k, hk⟩

theorem size_front (h : s.size = .ok n) : size (List.dropLast s) = .ok s.dropLast.count := by
  have hprefix : ∃ k, size (List.dropLast s) = .ok k := by
    rcases List.eq_nil_or_concat s with rfl | ⟨front, d, rfl⟩
    · exact ⟨1, rfl⟩
    · rw [List.concat_eq_append] at h ⊢
      rw [List.dropLast_concat]
      exact exists_size_of_append h
  obtain ⟨k, hk⟩ := hprefix
  rw [hk, count_of_size hk, count_front]

theorem size_dropLast (h : s.size = .ok n) : s.dropLast.size = .ok s.dropLast.count := by
  have hfront := size_front h
  unfold dropLast at hfront ⊢
  split at hfront
  next hrank => rwa [if_pos hrank]
  next hrank => rw [if_neg hrank]; rfl

/-- What keeps a shape from having a size is a product. -/
theorem size_eq_error {f : Fault} (h : s.size = .error f) : f = .multiplyOverflow :=
  foldlM_mul_eq_error h

/-! ## Broadcasting -/

theorem covers_self (s : Shape) (n : Nat) : covers s s n := by
  unfold covers
  rw [List.isSuffixOf_iff_suffix.mpr List.suffix_rfl, Bool.or_true]

/-- An array that stretches over another one has a single value or its dimensions at the end. -/
theorem covers_cases (h : covers xs ys ys.count) : ys.count = 1 ∨ ys <:+ xs := by
  rcases Bool.or_eq_true_iff.mp h with h | h
  · exact .inl (beq_iff_eq.mp (Bool.and_eq_true_iff.mp h).1)
  · exact .inr (List.isSuffixOf_iff_suffix.mp h)

/-- An array that stretches over another one divides it. -/
theorem count_dvd_of_covers (h : covers xs ys ys.count) : ys.count ∣ xs.count := by
  rcases covers_cases h with hone | hsuffix
  · rw [hone]
    exact Nat.one_dvd _
  · exact count_dvd_of_suffix hsuffix

/-- **The joint shape of two arrays** is one of their shapes, it has a size, and both arrays stretch
over it. -/
theorem broadcast_covers (h : xs.broadcast ys = .ok (some zs)) :
    (zs = xs ∨ zs = ys) ∧ zs.size = .ok zs.count ∧ covers zs xs xs.count ∧
      covers zs ys ys.count := by
  obtain ⟨xn, hxn, h⟩ := bind_eq_ok.mp h
  obtain ⟨yn, hyn, h⟩ := bind_eq_ok.mp h
  cases count_of_size hxn
  cases count_of_size hyn
  have h : (if covers xs ys ys.count then some xs
    else if covers ys xs xs.count then some ys else none) = some zs := Except.ok.inj h
  split at h
  next hcovers =>
    cases h
    exact ⟨.inl rfl, hxn, covers_self xs _, hcovers⟩
  next =>
    split at h
    next hcovers =>
      cases h
      exact ⟨.inr rfl, hyn, hcovers, covers_self ys _⟩
    next => cases h

/-- The values of either array can be repeated to fill the joint shape. -/
theorem broadcast_cases (h : xs.broadcast ys = .ok (some zs)) :
    (zs = xs ∨ zs = ys) ∧ xs.count ∣ zs.count ∧ ys.count ∣ zs.count := by
  obtain ⟨hjoint, -, hxs, hys⟩ := broadcast_covers h
  exact ⟨hjoint, count_dvd_of_covers hxs, count_dvd_of_covers hys⟩

end Staging.Shape
