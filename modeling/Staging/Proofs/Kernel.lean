import Staging.Kernel
import Staging.Proofs.Shape

/-!
# Kernels stay inside of their operands

A kernel has a result whenever its operands are as long as it takes them to be: no index lies
outside, nothing is divided by zero, and there are as many values as the result is to have. For
`Kernel.binary` it is enough that there are values to repeat.
-/

namespace Staging.Kernel

variable {α : Type} {xs ys : Array α} {m k n : Nat}

theorem fetch_of_lt {i : Nat} (h : i < xs.size) : fetch xs i = .ok xs[i] := by
  unfold fetch
  rw [Array.getElem?_eq_getElem h]

theorem fetch_eq_ok {i : Nat} {a : α} : fetch xs i = .ok a ↔ xs[i]? = some a := by
  unfold fetch
  cases xs[i]? <;> simp

theorem exists_tabulate {f : Nat → Except Fault α} (h : ∀ i < n, ∃ a, f i = .ok a) :
    ∃ out, tabulate n f = .ok out ∧ out.size = n := by
  induction n with
  | zero => exact ⟨#[], rfl, rfl⟩
  | succ n ih =>
    obtain ⟨out, hout, hsize⟩ := ih fun i hi => h i (Nat.lt_succ_of_lt hi)
    obtain ⟨a, ha⟩ := h n (Nat.lt_succ_self n)
    refine ⟨out.push a, ?_, by rw [Array.size_push, hsize]⟩
    unfold tabulate at hout ⊢
    rw [List.range_succ, List.foldlM_append, hout]
    simp [ha, bind, Except.bind, Except.map, pure, Except.pure]

/-- A table that is made holds at each position what was computed for it. -/
theorem getElem?_of_tabulate {f : Nat → Except Fault α} {out : Array α}
    (h : tabulate n f = .ok out) :
    out.size = n ∧ ∀ i < n, ∃ a, f i = .ok a ∧ out[i]? = some a := by
  induction n generalizing out with
  | zero =>
    cases h
    exact ⟨rfl, fun i hi => absurd hi (Nat.not_lt_zero i)⟩
  | succ n ih =>
    unfold tabulate at h
    rw [List.range_succ, List.foldlM_append] at h
    obtain ⟨front, hfront, h⟩ := bind_eq_ok.mp h
    obtain ⟨out', hlast, h⟩ := bind_eq_ok.mp h
    cases h
    obtain ⟨a, ha, rfl⟩ := map_eq_ok.mp hlast
    obtain ⟨hsize, hvalues⟩ := ih hfront
    refine ⟨by rw [Array.size_push, hsize], fun i hi => ?_⟩
    rw [Array.getElem?_push, hsize]
    split
    next heq => exact ⟨a, heq ▸ ha, rfl⟩
    next hne => exact hvalues i (by omega)

/-- A table without faults is the table of the values. -/
theorem tabulate_eq_ok {f : Nat → Except Fault α} {v : Nat → α} (h : ∀ i < n, f i = .ok (v i)) :
    tabulate n f = .ok (Array.ofFn fun i : Fin n => v i) := by
  obtain ⟨out, hout, hsize⟩ := exists_tabulate fun i hi => ⟨v i, h i hi⟩
  rw [hout]
  refine congrArg Except.ok (Array.ext_getElem? fun i => ?_)
  rw [Array.getElem?_ofFn]
  split
  next hi =>
    obtain ⟨a, ha, hi'⟩ := (getElem?_of_tabulate hout).2 i hi
    rw [hi', Except.ok.inj (ha.symm.trans (h i hi))]
  next hi => exact Array.getElem?_eq_none (by omega)

theorem size_unary (f : α → α) (xs : Array α) : (unary f xs).size = xs.size := Array.size_map

/-- Values can be repeated without end as soon as there is one. -/
theorem exists_binary (f : α → α → α) (n : Nat) (hx : 0 < xs.size) (hy : 0 < ys.size) :
    ∃ out, binary n f xs ys = .ok out ∧ out.size = n := by
  refine exists_tabulate fun i _ => ?_
  have hix : i % xs.size < xs.size := Nat.mod_lt i hx
  have hiy : i % ys.size < ys.size := Nat.mod_lt i hy
  refine ⟨f xs[i % xs.size] ys[i % ys.size], ?_⟩
  refine bind_eq_ok.mpr ⟨_, Size.rem_of_pos hx, bind_eq_ok.mpr ⟨_, fetch_of_lt hix, ?_⟩⟩
  exact bind_eq_ok.mpr ⟨_, Size.rem_of_pos hy, bind_eq_ok.mpr ⟨_, fetch_of_lt hiy, rfl⟩⟩

/-- The value at each position is computed from the values at that position modulo the lengths. -/
theorem getElem?_of_binary {f : α → α → α} {out : Array α} (h : binary n f xs ys = .ok out) :
    out.size = n ∧ ∀ i < n, ∃ a b, xs[i % xs.size]? = some a ∧ ys[i % ys.size]? = some b ∧
      out[i]? = some (f a b) := by
  obtain ⟨hsize, hvalues⟩ := getElem?_of_tabulate h
  refine ⟨hsize, fun i hi => ?_⟩
  obtain ⟨c, hc, hout⟩ := hvalues i hi
  obtain ⟨j, hj, hc⟩ := bind_eq_ok.mp hc
  obtain ⟨a, ha, hc⟩ := bind_eq_ok.mp hc
  obtain ⟨k, hk, hc⟩ := bind_eq_ok.mp hc
  obtain ⟨b, hb, hc⟩ := bind_eq_ok.mp hc
  cases hc
  cases Size.eq_mod_of_rem hj
  cases Size.eq_mod_of_rem hk
  exact ⟨a, b, fetch_eq_ok.mp ha, fetch_eq_ok.mp hb, hout⟩

/-! ## Rows -/

theorem rowCount_mul (rows : Nat) {width : Nat} (h : 0 < width) :
    rowCount (rows * width) width = .ok rows := by
  unfold rowCount
  rw [if_neg (Nat.ne_of_gt h), Nat.add_sub_assoc h, Nat.mul_comm, Nat.mul_add_div h,
    Nat.div_eq_of_lt (Nat.sub_lt h Nat.one_pos), Nat.add_zero]

/-- Values that fill a number of rows are cut into as many. -/
theorem cut_eq_ok {rows width : Nat} (hx : xs.size = rows * width) (h : 0 < width) :
    cut width xs = .ok (Array.ofFn fun r : Fin rows => row xs width r) := by
  unfold cut
  rw [hx, rowCount_mul rows h]
  rfl

/-- A fold along a last axis that is not empty folds the rows one by one. -/
theorem reduce_eq_ok {shape : Shape} (init : α) (f : α → α → α) (h : 0 < shape.last)
    (hx : xs.size = shape.count) :
    reduce shape init f xs =
      .ok (Array.ofFn fun r : Fin shape.dropLast.count => (row xs shape.last r).foldl f init) := by
  rw [Shape.count_eq_rows_mul_last] at hx
  unfold reduce foldRows
  rw [if_neg (Nat.ne_of_gt h), cut_eq_ok hx h]
  exact congrArg Except.ok Array.map_ofFn

theorem exists_reduce {shape : Shape} (init : α) (f : α → α → α) (h : 0 < shape.last)
    (hx : xs.size = shape.count) :
    ∃ out, reduce shape init f xs = .ok out ∧ out.size = shape.dropLast.count :=
  ⟨_, reduce_eq_ok init f h hx, Array.size_ofFn⟩

/-! ## Matrices -/

/-- Entry `p` of row `i` is an entry of the matrix. -/
theorem entry_lt {i p : Nat} (hi : i < m) (hp : p < k) : i * k + p < m * k :=
  calc i * k + p < i * k + k := Nat.add_lt_add_left hp _
    _ = (i + 1) * k := (Nat.succ_mul i k).symm
    _ ≤ m * k := Nat.mul_le_mul_right k hi

theorem entry_div {i p : Nat} (hp : p < k) : (i * k + p) / k = i := by
  rw [Nat.mul_comm, Nat.mul_add_div (Nat.zero_lt_of_lt hp), Nat.div_eq_of_lt hp, Nat.add_zero]

theorem entry_mod {i p : Nat} (hp : p < k) : (i * k + p) % k = p := by
  rw [Nat.mul_comm, Nat.mul_add_mod, Nat.mod_eq_of_lt hp]

end Staging.Kernel
