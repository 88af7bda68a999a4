import Mathlib.Data.List.Forall2
import Staging.Proofs.Ends
import Staging.Proofs.Inference
import Staging.Proofs.Product
import Staging.Proofs.Step

/-!
# Steps that follow the rules of shapes

Inference and evaluation each have their own account of shapes: one joins shapes by suffixes and
drops axes, the other divides lengths and cuts rows. They agree where no axis is empty: a step whose
shape is made by the rules from the shapes of the buffers it reads (`Step.Ready`) has no error. It
stores as many values as its shape counts, unless a number was too large (`Step.Ready.outcome`).
-/

namespace Staging

/-- A buffer of this shape, with as many values as it counts. -/
def Buffer.Fits (b : Buffer) (shape : Shape) : Prop := b.shape = shape ∧ b.data.size = shape.count

/-- With fewer values than this in each array, no number that an operation computes from their sizes
is too large. A product of matrices multiplies the sizes of two of them. -/
def Op.headroom : Op → Nat
  | .matmul => 1 <<< 31
  | _ => 1 <<< 60

theorem Op.headroom_bounds (op : Op) : 1 <<< 31 ≤ op.headroom ∧ op.headroom ≤ 1 <<< 60 := by
  cases op <;> simp [headroom]

theorem Op.arity_le_two (op : Op) : op.arity ≤ 2 := by
  cases op <;> simp [arity]

namespace Step

variable {s : Step} {read : Reader} {operands : List BufferId} {shapes : List Shape}
  {xs ys shape : Shape} {big : Prop}

/-! ## Reading -/

/-- The operands are held in these shapes. -/
def Held (read : Reader) (operands : List BufferId) (shapes : List Shape) : Prop :=
  List.Forall₂ (fun x xs => ∃ b, read x = some b ∧ b.Fits xs) operands shapes

theorem Held.getElem? (h : Held read operands shapes) {i : Nat} (hi : shapes[i]? = some xs) :
    ∃ x b, operands[i]? = some x ∧ read x = some b ∧ b.Fits xs := by
  obtain ⟨x, hx, b, hb, hfits⟩ := getElem?_of_forall₂ h.flip hi
  exact ⟨x, b, hx, hb, hfits⟩

theorem Held.operand (h : Held read s.operands shapes) {i : Nat} (hi : shapes[i]? = some xs) :
    ∃ b, s.operand read i = .ok b ∧ b.Fits xs := by
  obtain ⟨x, b, hx, hb, hfits⟩ := h.getElem? hi
  exact ⟨b, by simp only [Step.operand, hx, hb], hfits⟩

private theorem foldl_of_held (h : Held read operands shapes) (n : Nat) :
    (operands.filterMap read).foldl (fun n b => n + b.data.size) n =
      shapes.foldl (fun n xs => n + xs.count) n := by
  induction h generalizing n with
  | nil => rfl
  | cons hhead _ ih =>
    obtain ⟨b, hb, -, hsize⟩ := hhead
    rw [List.filterMap_cons_some hb, List.foldl_cons, List.foldl_cons, hsize, ih]

/-- The number of values read is a matter of the shapes. -/
theorem Held.readCount (h : Held read s.operands shapes) :
    s.readCount read = shapes.foldl (fun n xs => n + xs.count) 0 :=
  foldl_of_held h 0

/-- So is the length of the rows of the first operand. -/
theorem Held.innerLength (h : Held read s.operands (xs :: shapes)) :
    s.innerLength read = xs.getLast?.getD 0 := by
  obtain ⟨x, b, hx, hb, hshape, -⟩ := h.getElem? (i := 0) rfl
  rw [Step.innerLength, List.head?_eq_getElem?, hx, Option.bind_some, hb, Option.bind_some, hshape]

/-! ## Values -/

/-- A step that brings nothing in from outside, whose shape is made by the rules from the shapes of
the buffers it reads, none of which has an empty axis. -/
structure Ready (s : Step) (read : Reader) (shapes : List Shape) : Prop where
  makes : s.op.Makes shapes s.shape
  pure : s.op.isLoad = false
  nonzero : ∀ xs ∈ s.shape :: shapes, 0 ∉ xs
  held : Held read s.operands shapes

/-- The arrays of a step are so small that no number computed from their sizes is too large. -/
def Small (s : Step) (shapes : List Shape) : Prop :=
  ∀ xs ∈ s.shape :: shapes, Shape.count xs < s.op.headroom

theorem Small.count_lt (h : s.Small shapes) (hxs : xs ∈ s.shape :: shapes) :
    xs.count < 1 <<< 60 :=
  Nat.lt_of_lt_of_le (h xs hxs) s.op.headroom_bounds.2

theorem repeated_ends (value : Scalar) (hs : 0 ∉ s.shape ∧ s.shape.count < 1 <<< 60 ∨ big) :
    Ends (Fault.Overflow big) (fun a => a.size = s.shape.count) (s.repeated value) := by
  unfold repeated
  refine (Shape.size_ends hs).bind fun n hn => ?_
  subst hn
  exact (Size.reserve_ends (hs.imp_left And.right)).bind fun _ _ => Array.size_replicate

/-- An operand that divides the output can be repeated to fill it. -/
theorem checkRepeats_eq_ok {b : Buffer} (hb : b.Fits xs) (hxs : 0 ∉ xs) {n : Nat}
    (hdvd : xs.count ∣ n) : s.checkRepeats n b = .ok () := by
  have hpos : 0 < b.data.size := hb.2 ▸ Shape.count_pos hxs
  have hmod : n % b.data.size = 0 := hb.2 ▸ Nat.mod_eq_zero_of_dvd hdvd
  have hne : b.data.isEmpty = false := by simpa [Array.isEmpty] using Nat.ne_of_gt hpos
  unfold checkRepeats repeats
  rw [hne, Size.rem_of_pos hpos, hmod]
  rfl

theorem evaluateBinary_ends {op : BinaryOp} (hheld : Held read s.operands [xs, ys])
    (hjoint : xs.broadcast ys = .ok (some s.shape)) (hxs : 0 ∉ xs) (hys : 0 ∉ ys)
    (hs : 0 ∉ s.shape) (hsmall : s.shape.count < 1 <<< 60 ∨ big) :
    Ends (Failure.Overflow big) (fun a => a.size = s.shape.count) (s.evaluateBinary op read) := by
  obtain ⟨x, hx, hxfits⟩ := hheld.operand (i := 0) rfl
  obtain ⟨y, hy, hyfits⟩ := hheld.operand (i := 1) rfl
  obtain ⟨-, hxdvd, hydvd⟩ := Shape.broadcast_cases hjoint
  obtain ⟨out, hout, hsize⟩ := Kernel.exists_binary op.apply s.shape.count
    (hxfits.2 ▸ Shape.count_pos hxs) (hyfits.2 ▸ Shape.count_pos hys)
  unfold evaluateBinary
  rw [hx, hy]
  refine (Ends.ofFaulty (Shape.size_ends (hsmall.imp_left (⟨hs, ·⟩)))).bind fun n hn => ?_
  subst hn
  rw [checkRepeats_eq_ok hxfits hxs hxdvd, checkRepeats_eq_ok hyfits hys hydvd]
  refine (Ends.ofFaulty (Size.reserve_ends hsmall)).bind fun _ _ => ?_
  rw [hout]
  exact hsize

theorem evaluateProduct_ends {m k n : Nat} (hheld : Held read s.operands [[m, k], [k, n]])
    (hshape : s.shape = [m, n]) (hsmall : s.shape.count < 1 <<< 60 ∨ big) :
    Ends (Failure.Overflow big) (fun a => a.size = s.shape.count) (s.evaluateProduct read) := by
  obtain ⟨x, hx, hxshape, hxsize⟩ := hheld.operand (i := 0) rfl
  obtain ⟨y, hy, hyshape, hysize⟩ := hheld.operand (i := 1) rfl
  rw [Shape.count_pair] at hxsize hysize
  rw [hshape, Shape.count_pair] at hsmall ⊢
  obtain ⟨out, hout, hsize⟩ := Kernel.exists_matmul 0 (· + ·) (· * ·) hxsize hysize
  unfold evaluateProduct
  rw [hx, hy]
  simp only [bind, Except.bind, hxshape, hyshape, if_true]
  refine (Ends.ofFaulty (Size.mul_ends ?_)).bind fun count hcount => ?_
  · exact hsmall.imp_left fun h => Nat.lt_trans h (by decide)
  subst hcount
  refine (Ends.ofFaulty (Size.reserve_ends hsmall)).bind fun _ _ => ?_
  rw [hout]
  exact hsize

/-- **Evaluation gives as many values as the rules say**, one case for each rule. -/
theorem Ready.evaluate (h : s.Ready read shapes) (hsmall : s.shape.count < 1 <<< 60 ∨ big)
    (g : Generator) :
    Ends (Failure.Overflow big) (fun r => r.1.size = s.shape.count) (s.evaluate read g) := by
  obtain ⟨hmakes, hpure, hnonzero, hheld⟩ := h
  obtain ⟨hs, hshapes⟩ := List.forall_mem_cons.mp hnonzero
  unfold Step.evaluate
  generalize hop : s.op = op at hmakes hpure
  generalize hshape : s.shape = shape at hmakes
  cases hmakes with
  | given harity =>
    cases op with
    | load op => cases hpure
    | fill value =>
      rw [← hshape]
      have hends := repeated_ends value (hsmall.imp_left (⟨hs, ·⟩))
      exact (Ends.ofFaulty hends).bind fun _ hsize => hsize
    | _ => cases harity
  | unary =>
    obtain ⟨x, hx, hfits⟩ := hheld.operand (i := 0) rfl
    rw [hx]
    exact (Kernel.size_unary _ x.data).trans hfits.2
  | reduce =>
    obtain ⟨x, hx, rfl, hsize⟩ := hheld.operand (i := 0) rfl
    have hlast := Shape.last_pos (hshapes _ List.mem_cons_self)
    obtain ⟨out, hout, hcount⟩ := Kernel.exists_reduce _ _ hlast hsize
    rw [hx]
    simp only [bind, Except.bind]
    rw [hout]
    exact hcount
  | binary hjoint =>
    subst hshape
    have hxs := hshapes _ List.mem_cons_self
    have hys := hshapes _ (List.mem_cons_of_mem _ List.mem_cons_self)
    exact (evaluateBinary_ends hheld hjoint hxs hys hs hsmall).bind fun _ hsize => hsize
  | matmul =>
    rw [← hshape]
    exact (evaluateProduct_ends hheld hshape hsmall).bind fun _ hsize => hsize

/-! ## Costs -/

theorem Ready.opCount (h : s.Ready read shapes) (hsmall : s.Small shapes ∨ big) :
    Ends (Fault.Overflow big) (fun _ => True) (s.opCount read s.shape.count) := by
  obtain ⟨hmakes, hpure, hnonzero, hheld⟩ := h
  unfold Step.opCount
  generalize hop : s.op = op at hmakes
  generalize hshape : s.shape = shape at hmakes
  cases hmakes with
  | given harity =>
    cases op with
    | load op => trivial
    | fill value => trivial
    | _ => cases harity
  | unary => trivial
  | reduce => trivial
  | binary hjoint => trivial
  | @matmul m k n =>
    have hinner : s.innerLength read = k := hheld.innerLength
    have hbound : 2 * Shape.count [m, n] < 1 <<< 32 ∧ k < 1 <<< 31 ∨ big := by
      refine hsmall.imp_left fun hsmall => ?_
      rw [Small, hop] at hsmall
      have hout : s.shape.count < 1 <<< 31 := hsmall s.shape List.mem_cons_self
      have hin : m * (k * 1) < 1 <<< 31 := hsmall [m, k] (List.mem_cons_of_mem _ List.mem_cons_self)
      have hm : 0 ∉ [m, k] := hnonzero _ (List.mem_cons_of_mem _ List.mem_cons_self)
      have hk : k ≤ m * (k * 1) := by
        rw [Nat.mul_one]
        exact Nat.le_mul_of_pos_left k (Nat.pos_of_ne_zero fun hm0 => hm (hm0 ▸ List.mem_cons_self))
      rw [hshape] at hout
      omega
    rw [hinner]
    have hfirst : 2 * Shape.count [m, n] < Size.limit ∨ big :=
      hbound.imp_left fun h => Nat.lt_trans h.1 (by decide)
    refine (Size.mul_ends hfirst).bind fun t ht => ?_
    subst ht
    refine (Size.mul_ends (hbound.imp_left fun h => ?_)).imp fun _ _ => trivial
    exact Nat.lt_trans (Nat.mul_lt_mul'' h.1 h.2) (by decide)

theorem foldl_count_le {bound : Nat} (h : ∀ xs ∈ shapes, Shape.count xs < bound) (n : Nat) :
    shapes.foldl (fun n xs => n + xs.count) n ≤ n + shapes.length * bound := by
  induction shapes generalizing n with
  | nil => exact Nat.le_add_right n _
  | cons xs shapes ih =>
    obtain ⟨hxs, hrest⟩ := List.forall_mem_cons.mp h
    have hle := ih hrest (n + Shape.count xs)
    rw [List.foldl_cons, List.length_cons, Nat.succ_mul]
    omega

theorem Ready.cost (h : s.Ready read shapes) (hsmall : s.Small shapes ∨ big) :
    Ends (Fault.Overflow big) (fun _ => True) (s.cost read) := by
  have hs : 0 ∉ s.shape := h.nonzero _ List.mem_cons_self
  have hout : s.shape.count < 1 <<< 60 ∨ big :=
    hsmall.imp_left fun h => h.count_lt List.mem_cons_self
  unfold Step.cost
  refine (Shape.size_ends (hout.imp_left (⟨hs, ·⟩))).bind fun n hn => ?_
  subst hn
  refine (h.opCount hsmall).bind fun ops _ => ?_
  refine (Size.mul_ends ?_).bind fun mem _ => trivial
  refine hsmall.imp_left fun hsmall => ?_
  have hout := hsmall.count_lt List.mem_cons_self
  have hread := foldl_count_le (fun xs hxs => hsmall.count_lt (List.mem_cons_of_mem _ hxs)) 0
  have hlength : shapes.length ≤ 2 := h.makes.length_eq ▸ Op.arity_le_two s.op
  have hlimit : Size.limit = 1 <<< 64 := rfl
  rw [h.held.readCount, hlimit]
  omega

theorem Ready.checkedCost (h : s.Ready read shapes) (hsmall : s.Small shapes ∨ big)
    {data : Array Scalar} (hdata : data.size = s.shape.count) :
    Ends (Failure.Overflow big) (fun _ => True) (s.checkedCost read data) := by
  have hs : 0 ∉ s.shape := h.nonzero _ List.mem_cons_self
  have hout : s.shape.count < 1 <<< 60 ∨ big :=
    hsmall.imp_left fun h => h.count_lt List.mem_cons_self
  unfold Step.checkedCost
  refine (Ends.ofFaulty (Shape.size_ends (hout.imp_left (⟨hs, ·⟩)))).bind fun n hn => ?_
  rw [if_neg (not_not.mpr (hdata.trans hn.symm))]
  exact Ends.ofFaulty (h.cost hsmall)

/-- **A ready step has no error**: it stores a buffer of its shape, unless a number was too large.
-/
theorem Ready.outcome (h : s.Ready read shapes) (hsmall : s.Small shapes ∨ big) (g : Generator) :
    Ends (Failure.Overflow big) (fun r => r.1.Fits s.shape) (s.outcome read g) := by
  have hout : s.shape.count < 1 <<< 60 ∨ big :=
    hsmall.imp_left fun h => h.count_lt List.mem_cons_self
  unfold Step.outcome
  refine (h.evaluate hout g).bind fun ⟨data, g'⟩ hdata => ?_
  exact (h.checkedCost hsmall hdata).bind fun c _ => ⟨rfl, hdata⟩

end Step

end Staging
