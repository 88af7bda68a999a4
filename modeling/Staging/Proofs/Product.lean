import Mathlib.Data.List.Basic
import Mathlib.Data.List.Induction
import Mathlib.Data.List.OfFn
import Staging.Proofs.Kernel

/-!
# The product of matrices

A product is computed in place. Each of its rows starts at zero and is passed over once for every
value in the row of the first matrix; a pass adds one product to every sum of the row. No sum ever
reads another one, so a sum is the left fold of its own products in the order of the passes
(`Kernel.sumTo`), and after `t` passes a row holds the folds of the first `t` products
(`Kernel.addProducts_rowTo`). Nothing is assumed of addition and multiplication: the order of the
fold decides how the sums are rounded.

Rows are changed one at a time by `Kernel.alter`, and each change is a matter of the row alone. So
it only matters how often a row was changed, and not what happened to others meanwhile
(`Kernel.alter_eq_ok`). This gives the product for any order of the rows, and also for rows that are
worked on by turns, in whatever way the passes over different rows follow each other.

**What it does not establish.** How far a sum of rounded products is from the exact one. The order
of the operations is settled, and with it every bit of the result, but no bound on the error is
given.
-/

namespace Staging.Kernel

variable {α : Type} {zero : α} {add mul : α → α → α} {m k n i p : Nat} {xs ys : Array α}

/-! ## One row -/

/-- The left fold of the first `t` products of row `i` and column `j`. -/
def sumTo (zero : α) (add mul : α → α → α) (k n : Nat) (xs ys : Array α) (t i j : Nat) : α :=
  (List.range t).foldl
    (fun sum p => add sum (mul (xs.getD (i * k + p) zero) (ys.getD (p * n + j) zero))) zero

theorem sumTo_succ (t i j : Nat) :
    sumTo zero add mul k n xs ys (t + 1) i j = add (sumTo zero add mul k n xs ys t i j)
      (mul (xs.getD (i * k + t) zero) (ys.getD (t * n + j) zero)) := by
  simp only [sumTo, List.range_succ, List.foldl_append, List.foldl_cons, List.foldl_nil]

/-- The sums of row `i` after `t` passes. -/
def rowTo (zero : α) (add mul : α → α → α) (k n : Nat) (xs ys : Array α) (t i : Nat) : Array α :=
  Array.ofFn fun j : Fin n => sumTo zero add mul k n xs ys t i j

theorem replicate_eq_ofFn {β : Type} (n : Nat) (b : β) :
    Array.replicate n b = Array.ofFn fun _ : Fin n => b := by
  rw [← Array.toList_inj, Array.toList_replicate, Array.toList_ofFn, List.ofFn_const]

theorem rowTo_zero (i : Nat) : rowTo zero add mul k n xs ys 0 i = Array.replicate n zero :=
  (replicate_eq_ofFn n zero).symm

theorem fetch_eq_getD (h : i < xs.size) (a : α) : fetch xs i = .ok (xs.getD i a) := by
  rw [fetch_of_lt h, Array.getD_eq_getD_getElem?, Array.getElem?_eq_getElem h, Option.getD_some]

theorem fetch_ofFn {β : Type} {f : Nat → β} (h : i < n) :
    fetch (Array.ofFn fun j : Fin n => f j) i = .ok (f i) := by
  rw [fetch_of_lt (by rwa [Array.size_ofFn]), Array.getElem_ofFn]

/-- **A pass** over the sums of a row adds the next product to each of them. -/
theorem addProducts_rowTo (hx : xs.size = m * k) (hy : ys.size = k * n) (hi : i < m) (hp : p < k) :
    addProducts add mul k n xs ys i p (rowTo zero add mul k n xs ys p i) =
      .ok (rowTo zero add mul k n xs ys (p + 1) i) := by
  have hrow : i * k + p < xs.size := hx ▸ entry_lt hi hp
  unfold addProducts
  rw [fetch_eq_getD hrow zero]
  simp only [rowTo, sumTo_succ, Array.size_ofFn, bind, Except.bind]
  refine tabulate_eq_ok (v := fun j => add (sumTo zero add mul k n xs ys p i j)
    (mul (xs.getD (i * k + p) zero) (ys.getD (p * n + j) zero))) fun j hj => ?_
  have hcolumn : p * n + j < ys.size := hy ▸ entry_lt hp hj
  rw [fetch_eq_getD hcolumn zero, fetch_ofFn hj]
  rfl

/-- All passes over a row leave the sums of all products. -/
theorem addRow_rowTo (hx : xs.size = m * k) (hy : ys.size = k * n) (hi : i < m) :
    addRow add mul k n xs ys i (rowTo zero add mul k n xs ys 0 i) =
      .ok (rowTo zero add mul k n xs ys k i) := by
  -- the induction is on the number of passes so far
  suffices h : ∀ t ≤ k, (List.range t).foldlM
      (fun sums p => addProducts add mul k n xs ys i p sums) (rowTo zero add mul k n xs ys 0 i) =
        .ok (rowTo zero add mul k n xs ys t i) from h k (Nat.le_refl k)
  intro t ht
  induction t with
  | zero => rfl
  | succ t ih =>
    rw [List.range_succ, List.foldlM_append, ih (Nat.le_of_succ_le ht)]
    simp only [List.foldlM_cons, List.foldlM_nil, bind, Except.bind]
    rw [addProducts_rowTo hx hy hi ht]
    rfl

/-! ## All rows -/

theorem alter_concat {β : Type} {f : Nat → β → Except Fault β} {order : List Nat}
    {rows rows' : Array β} {b b' : β} (h : alter f order rows = .ok rows')
    (hb : fetch rows' i = .ok b) (hf : f i b = .ok b') :
    alter f (order ++ [i]) rows = .ok (rows'.setIfInBounds i b') := by
  unfold alter
  rw [List.foldlM_append]
  refine bind_eq_ok.mpr ⟨rows', h, bind_eq_ok.mpr ⟨_, ?_, rfl⟩⟩
  exact bind_eq_ok.mpr ⟨b, hb, bind_eq_ok.mpr ⟨b', hf, rfl⟩⟩

/-- **Changes at different positions do not meet.** Where `v i t` is what a position `i` holds after
`t` changes, every list of changes leaves it with as many as the list has for it. -/
theorem alter_eq_ok {β : Type} {f : Nat → β → Except Fault β} {v : Nat → Nat → β} {bound : Nat}
    (hf : ∀ i < m, ∀ t < bound, f i (v i t) = .ok (v i (t + 1))) {order : List Nat}
    (hcount : ∀ i, order.count i ≤ if i < m then bound else 0) :
    alter f order (Array.ofFn fun i : Fin m => v i 0) =
      .ok (Array.ofFn fun i : Fin m => v i (order.count i.val)) := by
  induction order using List.reverseRecOn with
  | nil => rfl
  | append_singleton order a ih =>
    have hbefore := ih fun i =>
      Nat.le_trans (by rw [List.count_append]; exact Nat.le_add_right _ _) (hcount i)
    have ha := hcount a
    rw [List.count_append, List.count_singleton_self] at ha
    obtain ⟨hlt, hleft⟩ : a < m ∧ order.count a < bound := by
      split at ha
      next hlt => exact ⟨hlt, ha⟩
      next => cases ha
    have hfetch := fetch_ofFn (f := fun i => v i (order.count i)) hlt
    rw [alter_concat hbefore hfetch (hf a hlt _ hleft)]
    refine congrArg Except.ok (Array.ext_getElem? fun i => ?_)
    rw [Array.getElem?_setIfInBounds, Array.getElem?_ofFn, Array.getElem?_ofFn, Array.size_ofFn]
    by_cases hai : a = i
    · subst hai
      simp [hlt]
    · simp [hai]

/-- The sums of all rows, one row after the other. -/
def product (zero : α) (add mul : α → α → α) (m k n : Nat) (xs ys : Array α) : Array α :=
  Array.ofFn fun t : Fin (m * n) => sumTo zero add mul k n xs ys k (t / n) (t % n)

theorem flatten_rows (zero : α) (add mul : α → α → α) (m k n : Nat) (xs ys : Array α) :
    (Array.ofFn fun i : Fin m => rowTo zero add mul k n xs ys k i).flatten =
      product zero add mul m k n xs ys := by
  refine Array.toList_inj.mp ?_
  rw [Array.toList_flatten, product, Array.toList_ofFn, Array.toList_ofFn, List.map_ofFn,
    List.ofFn_mul]
  refine congrArg (fun f => (List.ofFn f).flatten) (funext fun i => ?_)
  simp only [rowTo, Function.comp_apply, Array.toList_ofFn]
  refine congrArg List.ofFn (funext fun j => ?_)
  rw [entry_div j.isLt, entry_mod j.isLt]

theorem cut_blank (hn : 0 < n) :
    cut n (Array.replicate (m * n) zero) = .ok (Array.replicate m (Array.replicate n zero)) := by
  rw [cut_eq_ok Array.size_replicate hn, replicate_eq_ofFn m]
  refine congrArg (fun f => Except.ok (Array.ofFn f)) (funext fun i => ?_)
  have hend : i * n + n ≤ m * n := Nat.succ_mul i n ▸ Nat.mul_le_mul_right n i.isLt
  rw [row, Array.extract_replicate, Nat.min_eq_left hend, Nat.add_sub_cancel_left]

/-- **The rows may be computed in any order.** -/
theorem alter_addRow (hx : xs.size = m * k) (hy : ys.size = k * n) {order : List Nat}
    (horder : order.Perm (List.range m)) :
    alter (addRow add mul k n xs ys) order (Array.replicate m (Array.replicate n zero)) =
      .ok (Array.ofFn fun i : Fin m => rowTo zero add mul k n xs ys k i) := by
  have hcount : ∀ i, order.count i = if i < m then 1 else 0 := fun i => by
    rw [horder.count_eq, List.nodup_range.count]
    simp only [List.mem_range]
  -- a row is changed once, and has its sums after zero passes before and after `k` passes behind it
  have hrow : ∀ i < m, ∀ t < 1, addRow add mul k n xs ys i (rowTo zero add mul k n xs ys (t * k) i) =
      .ok (rowTo zero add mul k n xs ys ((t + 1) * k) i) := by
    intro i hi t ht
    obtain rfl : t = 0 := by omega
    rw [Nat.zero_mul, Nat.zero_add, Nat.one_mul]
    exact addRow_rowTo hx hy hi
  have hrows := alter_eq_ok hrow fun i => Nat.le_of_eq (hcount i)
  rw [replicate_eq_ofFn m]
  simpa [hcount, rowTo_zero] using hrows

/-- **Matrices that fit together have a product**, and these are its values. -/
theorem matmul_eq_ok (hx : xs.size = m * k) (hy : ys.size = k * n) :
    matmul zero add mul m k n xs ys = .ok (product zero add mul m k n xs ys) := by
  unfold matmul
  by_cases hn : n = 0
  · rw [if_pos hn]
    refine congrArg Except.ok (Array.ext (by simp [product]) fun i hi => ?_)
    simp [hn] at hi
  · rw [if_neg hn]
    have hrange : (List.range (Array.replicate m (Array.replicate n zero)).size).Perm
        (List.range m) := by rw [Array.size_replicate]
    refine bind_eq_ok.mpr ⟨_, cut_blank (Nat.pos_of_ne_zero hn), ?_⟩
    refine bind_eq_ok.mpr ⟨_, alter_addRow hx hy hrange, ?_⟩
    exact congrArg Except.ok (flatten_rows zero add mul m k n xs ys)

theorem size_product : (product zero add mul m k n xs ys).size = m * n := Array.size_ofFn

theorem exists_matmul (zero : α) (add mul : α → α → α) (hx : xs.size = m * k)
    (hy : ys.size = k * n) :
    ∃ out, matmul zero add mul m k n xs ys = .ok out ∧ out.size = m * n :=
  ⟨_, matmul_eq_ok hx hy, size_product⟩

end Staging.Kernel
