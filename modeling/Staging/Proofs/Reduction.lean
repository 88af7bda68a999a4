import Staging.Proofs.Built
import Staging.Proofs.Position
import Staging.Proofs.Safety

/-!
# Folds along the last axis

A fold along the last axis gives one value for each row. Rows that have values are cut out of the
array one after the other, and row-major order makes them what stands along the last axis at each
multi-index of the others (`Kernel.rowFolds_iff_axisFolds`). Within a row the fold goes from the
left; nothing is assumed of its function, so this is also the order in which sums are rounded
(`Kernel.reduce_along_last_axis`).

How many rows there are is said in three places: inference drops the last axis, a fold over rows
that have values cuts them out of the array, and where rows have none it multiplies the other axes
and takes at least one.

The three agree on every shape but those whose last axis is empty along with another one
(`Shape.TwiceEmpty`). There are no rows then, and one value is made all the same, so that a machine
refuses a step that a graph has accepted (`Graph.reduce_runs_unless_twice_empty`). One empty axis
alone does no harm: rows without values fold to the initial value, and there may be no rows at all.
-/

namespace Staging

/-! ## The values -/

namespace Kernel

variable {α : Type} {init : α} {f : α → α → α} {front : Shape} {width : Nat} {xs out : Array α}

/-- The left fold of the values at some positions, in the order of the positions, if all of them lie
inside of the array. -/
def foldAt (init : α) (f : α → α → α) (xs : Array α) (positions : List Nat) : Option α :=
  (positions.mapM (xs[·]?)).map (List.foldl f init)

/-- Value `r` is the left fold of the `width` values that start at position `r * width`. -/
def RowFolds (init : α) (f : α → α → α) (width : Nat) (xs out : Array α) : Prop :=
  ∀ r < out.size, out[r]? = foldAt init f xs (List.range' (r * width) width)

/-- The value at each multi-index of the leading axes is the left fold of the values along the last
axis at that multi-index. -/
def AxisFolds (init : α) (f : α → α → α) (front : Shape) (width : Nat) (xs out : Array α) : Prop :=
  ∀ index, front.Inside index → out[front.position index]? = foldAt init f xs
    ((List.range width).map fun p => Shape.position (front ++ [width]) (index ++ [p]))

private theorem mapM_range' {start len : Nat} (h : start + len ≤ xs.size) :
    (List.range' start len).mapM (xs[·]?) = some (xs.extract start (start + len)).toList := by
  -- a segment grows at its end, and so does the range
  induction len with
  | zero => simp
  | succ len ih =>
    have hlast : start + len < xs.size := h
    rw [List.range'_1_concat, List.mapM_append, ih (Nat.le_of_lt hlast), ← Nat.add_assoc,
      Array.extract_succ_right (Nat.lt_succ_of_le (Nat.le_add_right _ _)) hlast, Array.toList_push]
    simp only [List.mapM_cons, List.mapM_nil, Array.getElem?_eq_getElem hlast]
    rfl

/-- The fold of the values of a row is the fold of the row. -/
theorem foldAt_row {r : Nat} (h : r * width + width ≤ xs.size) (init : α) (f : α → α → α) :
    foldAt init f xs (List.range' (r * width) width) = some ((row xs width r).foldl f init) := by
  rw [foldAt, mapM_range' h, Option.map_some, Array.foldl_toList, row]

/-- What stands along the last axis is one row. -/
theorem positions_along {index : List Nat} (h : front.Inside index) (width : Nat) :
    (List.range width).map (fun p => Shape.position (front ++ [width]) (index ++ [p])) =
      List.range' (front.position index * width) width := by
  simp only [Shape.position_concat h, List.range'_eq_map_range]

/-- **Rows are what stands along the last axis.** So the folds of the rows, one after the other, are
the folds along that axis. -/
theorem rowFolds_iff_axisFolds (hsize : out.size = front.count) :
    RowFolds init f width xs out ↔ AxisFolds init f front width xs out := by
  constructor
  · intro h index hindex
    rw [positions_along hindex]
    exact h _ (hsize ▸ Shape.position_lt hindex)
  · intro h r hr
    obtain ⟨index, hindex, rfl⟩ := Shape.exists_position (hsize ▸ hr)
    rw [h index hindex, positions_along hindex]

/-- Each row is folded from the left. -/
theorem rowFolds_of_reduce {shape : Shape} (h : 0 < shape.last) (hx : xs.size = shape.count)
    (hout : reduce shape init f xs = .ok out) : RowFolds init f shape.last xs out := by
  rw [reduce_eq_ok init f h hx] at hout
  cases hout
  intro r hr
  rw [Array.size_ofFn] at hr
  have hrow : r * shape.last + shape.last ≤ xs.size := by
    rw [hx, Shape.count_eq_rows_mul_last, ← Nat.succ_mul]
    exact Nat.mul_le_mul_right _ hr
  rw [Array.getElem?_ofFn, dif_pos hr, foldAt_row hrow]

/-- **A fold along the last axis.** For every shape with a last axis that is not empty, and for
every array that is as long as the shape says, there is a result, and it has one value for each row.
Value `r` is the left fold of row `r`, from the initial value on; nothing is assumed of the
function. The same can be said by multi-indices: the value at each multi-index of the leading axes
is the left fold along the last axis there. An array of this size has the one property exactly when
it has the other. -/
theorem reduce_along_last_axis (hwidth : 0 < width) (hx : xs.size = Shape.count (front ++ [width]))
    (init : α) (f : α → α → α) :
    ∃ out, reduce (front ++ [width]) init f xs = .ok out ∧
      out.size = Shape.count (front ++ [width]) / width ∧
      RowFolds init f width xs out ∧ AxisFolds init f front width xs out ∧
      ∀ values : Array α, values.size = out.size →
        (RowFolds init f width xs values ↔ AxisFolds init f front width xs values) := by
  have hlast : 0 < Shape.last (front ++ [width]) := (Shape.last_concat front width).symm ▸ hwidth
  obtain ⟨out, hout, hsize⟩ := exists_reduce init f hlast hx
  rw [Shape.count_dropLast_concat] at hsize
  have hrows := rowFolds_of_reduce hlast hx hout
  rw [Shape.last_concat] at hrows
  refine ⟨out, hout, ?_, hrows, (rowFolds_iff_axisFolds hsize).mp hrows, fun values hvalues => ?_⟩
  · rw [hsize, Shape.count_concat, Nat.mul_div_cancel _ hwidth]
  · exact rowFolds_iff_axisFolds (hvalues.trans hsize)

/-- Digits that are read as numbers along the last of three axes, where the order counts; and rows
of three values of which there are none. -/
theorem reduce_along_last_axis_digits :
    let digits := #[1, 2, 3, 4, 5, 6, 7, 8, 9, 0, 1, 2]
    let read : Nat → Nat → Nat := fun n d => 10 * n + d
    digits.size = Shape.count [2, 2, 3] ∧ Shape.Inside [2, 2] [1, 0] ∧
      (∃ out, reduce [2, 2, 3] 0 read digits = .ok out ∧ out.size = 4 ∧ out[1]? = some 456 ∧
        out[Shape.position [2, 2] [1, 0]]? = some 789) ∧
      ∃ out, reduce [0, 3] 0 read #[] = .ok out ∧ out.size = 0 := by
  intro digits read
  have hsize : digits.size = Shape.count ([2, 2] ++ [3]) := rfl
  have hnone : (#[] : Array Nat).size = Shape.count ([0] ++ [3]) := rfl
  have hindex : Shape.Inside [2, 2] [1, 0] := .cons (by decide) (.cons (by decide) .nil)
  refine ⟨hsize, hindex, ?_, ?_⟩
  · obtain ⟨out, hout, hcount, hrows, haxis, -⟩ := reduce_along_last_axis (by decide) hsize 0 read
    exact ⟨out, hout, hcount, hrows 1 (hcount ▸ by decide), haxis [1, 0] hindex⟩
  · obtain ⟨out, hout, hcount, -⟩ := reduce_along_last_axis (by decide) hnone 0 read
    exact ⟨out, hout, hcount⟩

end Kernel

/-! ## The number of values -/

/-- The last axis is empty, and so is another one. -/
def Shape.TwiceEmpty (s : Shape) : Prop := s.last = 0 ∧ 0 ∈ s.dropLast

instance (s : Shape) : Decidable s.TwiceEmpty := inferInstanceAs (Decidable (_ ∧ _))

namespace Kernel

variable {α : Type} {shape : Shape} {xs : Array α}

/-- Rows without values are counted by their axes, and there is at least one. -/
theorem reduce_of_last_eq_zero (h : shape.last = 0) (init : α) (f : α → α → α) (xs : Array α) :
    reduce shape init f xs = do
      let rows ← Shape.size (List.dropLast shape)
      Size.reserve (max rows 1)
      return Array.replicate (max rows 1) init := by
  unfold reduce
  rw [if_pos h]
  cases shape with
  | nil => cases h
  | cons d s => rfl

/-- **There is one value for each row**, where the rows are counted as inference counts them. -/
theorem reduce_counts_rows (h : ¬ shape.TwiceEmpty) (hx : xs.size = shape.count) (init : α)
    (f : α → α → α) :
    Ends (Fault.Overflow (1 <<< 60 ≤ shape.dropLast.count))
      (fun out => out.size = shape.dropLast.count) (reduce shape init f xs) := by
  by_cases hlast : shape.last = 0
  · have hrows : 0 ∉ List.dropLast shape := by
      rw [← Shape.count_eq_zero, Shape.count_front, Shape.count_eq_zero]
      exact fun hmem => h ⟨hlast, hmem⟩
    have hcount := Shape.count_front shape
    have hpos := Shape.count_pos hrows
    rw [reduce_of_last_eq_zero hlast]
    refine (Shape.size_ends ?_).bind fun rows hrows => ?_
    · exact (Nat.lt_or_ge _ _).imp_left fun hlt => ⟨hrows, hcount ▸ hlt⟩
    have hmax : max rows 1 = shape.dropLast.count := by omega
    rw [hmax]
    exact (Size.reserve_ends (Nat.lt_or_ge _ _)).bind fun _ _ => Array.size_replicate
  · obtain ⟨out, hout, hsize⟩ := exists_reduce init f (Nat.pos_of_ne_zero hlast) hx
    rw [hout]
    exact hsize

/-- Where there are no rows of no values, one value is made. -/
theorem reduce_of_twiceEmpty (h : shape.TwiceEmpty) {n : Nat} (hsize : shape.size = .ok n)
    (init : α) (f : α → α → α) (xs : Array α) : reduce shape init f xs = .ok #[init] := by
  obtain ⟨hlast, hmem⟩ := h
  rw [reduce_of_last_eq_zero hlast, Shape.size_front hsize, Shape.count_eq_zero.mpr hmem]
  rfl

end Kernel

/-! ## Steps -/

namespace Step

variable {s : Step} {read : Reader} {op : ReduceOp} {x : BufferId} {b : Buffer}

/-- A fold of a buffer that has as many values as its shape asks for, in the shape that is inferred
for it. -/
structure Folds (s : Step) (read : Reader) (op : ReduceOp) (x : BufferId) (b : Buffer) : Prop where
  op : s.op = .reduce op
  operands : s.operands = [x]
  shape : s.shape = b.shape.dropLast
  held : read x = some b
  size : b.shape.size = .ok b.data.size

namespace Folds

theorem count (h : s.Folds read op x b) : b.data.size = b.shape.count := Shape.count_of_size h.size

theorem evaluate_eq (h : s.Folds read op x b) (g : Generator) :
    s.evaluate read g = do
      return (← Result.ofFaulty (Kernel.reduce b.shape op.start op.apply b.data), g) := by
  have hoperand : s.operand read 0 = .ok b := by simp [operand, h.operands, h.held]
  unfold evaluate
  rw [h.op]
  simp only
  rw [hoperand]
  rfl

/-- The size of the step is the number of rows. -/
theorem size_eq (h : s.Folds read op x b) : s.size = .ok s.shape.count := by
  rw [Step.size, h.shape]
  exact Shape.size_dropLast h.size

theorem cost_ends (h : s.Folds read op x b) :
    Ends (Fault.Overflow (1 <<< 60 ≤ b.shape.count ∨ 1 <<< 60 ≤ s.shape.count)) (fun _ => True)
      (s.cost read) := by
  have hread : s.readCount read = b.shape.count := by
    simp [readCount, h.operands, h.held, h.count]
  have hlimit : Size.limit = 1 <<< 64 := rfl
  unfold cost opCount
  rw [h.size_eq, h.op, hread]
  refine (Size.mul_ends ?_).bind fun mem _ => trivial
  omega

/-- **A fold stores one value for each row**, unless a number was too large. -/
theorem outcome_ends (h : s.Folds read op x b) (htwice : ¬ b.shape.TwiceEmpty) (g : Generator) :
    Ends (Failure.Overflow (1 <<< 60 ≤ b.shape.count ∨ 1 <<< 60 ≤ s.shape.count))
      (fun r => r.1.Fits s.shape) (s.outcome read g) := by
  have hvalues := Kernel.reduce_counts_rows htwice h.count op.start op.apply
  rw [← h.shape] at hvalues
  unfold outcome
  rw [h.evaluate_eq g]
  refine Ends.bind (P := fun r => r.1.size = s.shape.count) ?_ fun ⟨data, g'⟩ hdata => ?_
  · exact (Ends.ofFaulty (hvalues.weaken fun f hf => hf.imp .inr)).bind fun data hdata => hdata
  · simp only [checkedCost_of_size (hdata ▸ h.size_eq)]
    exact (Ends.ofFaulty h.cost_ends).bind fun c _ => ⟨rfl, hdata⟩

/-- Where there are no rows, the value that is made all the same is one too many. -/
theorem outcome_of_twiceEmpty (h : s.Folds read op x b) (htwice : b.shape.TwiceEmpty)
    (g : Generator) :
    s.outcome read g =
      .error (.error (.ofStep s.output (.wrongResult (.reduce op) 1 s.shape))) := by
  have hrows : s.shape.count = 0 := by
    rw [h.shape]
    exact Shape.count_eq_zero.mpr htwice.2
  unfold outcome checkedCost
  rw [h.evaluate_eq g, h.size_eq, hrows, Kernel.reduce_of_twiceEmpty htwice h.size, h.op]
  rfl

end Folds

end Step

/-! ## Graphs and machines -/

namespace Graph

/-- What is inferred for a fold has all axes of the operand but the last. -/
theorem dropLast_of_inferShape {g : Graph} {op : ReduceOp} {x : BufferId} {xs shape : Shape}
    (hx : g.shape x = .ok xs) (hinfer : g.inferShape (.reduce op) [x] = .ok shape) :
    shape = xs.dropLast := by
  rw [inferShape, if_neg (by simp [Op.arity])] at hinfer
  simp only [hx, Except.map, Result.ofExcept_eq_ok, Except.ok.injEq] at hinfer
  exact hinfer.symm

/-- **The machine folds what inference accepts, unless the operand is empty along its last axis and
another one.** For every shape and all values of it, folding gives as many values as the inferred
shape counts. A step that a graph accepts for an operand that a machine holds is executed, and its
buffer has the inferred shape; what may stop it is a number that is too large, and only if one of
the two shapes counts 2^60 values or more. For an operand that is empty along both axes, the
inferred shape counts no values and one is made, so the machine refuses the step and is left as it
was. -/
theorem reduce_runs_unless_twice_empty (xs : Shape) (op : ReduceOp) :
    (¬ xs.TwiceEmpty → ∀ values : Array Scalar, values.size = xs.count →
      Ends (Fault.Overflow (1 <<< 60 ≤ xs.dropLast.count))
        (fun out => out.size = xs.dropLast.count)
        (Kernel.reduce xs op.start op.apply values)) ∧
    ∀ (g : Graph) (m : Machine) (x z : BufferId) (b : Buffer) (shape : Shape) (c : Counters),
      g.shape x = .ok xs → g.inferShape (.reduce op) [x] = .ok shape →
      m.read x = some b → b.shape = xs → xs.size = .ok b.data.size →
      let o := Engine.run [⟨.reduce op, z, [x], shape⟩] m c
      (¬ xs.TwiceEmpty →
        match o.stop with
        | none => ∃ r, o.engine.read z = some r ∧ r.shape = shape ∧ r.data.size = shape.count
        | some why => why.Overflow (1 <<< 60 ≤ xs.count ∨ 1 <<< 60 ≤ shape.count)) ∧
      (xs.TwiceEmpty →
        Kernel.reduce xs op.start op.apply b.data = .ok #[op.start] ∧ shape.count = 0 ∧
          o.engine = m ∧
          o.stop = some (.error (.ofStep z (.wrongResult (.reduce op) 1 shape)))) := by
  refine ⟨fun htwice values hvalues => Kernel.reduce_counts_rows htwice hvalues _ _, ?_⟩
  rintro g m x z b shape c hx hinfer hb rfl hsize o
  have hshape := dropLast_of_inferShape hx hinfer
  let s : Step := ⟨.reduce op, z, [x], shape⟩
  have hs : s.Folds m.read op x b := ⟨rfl, rfl, hshape, hb, hsize⟩
  refine ⟨fun htwice => ?_, fun htwice => ?_⟩
  · exact Machine.run_single_ends (hs.outcome_ends htwice m.generator) c
  · have ho : o = _ := Machine.run_single_error (hs.outcome_of_twiceEmpty htwice m.generator) c
    have hrows : shape.count = 0 := hshape ▸ Shape.count_eq_zero.mpr htwice.2
    rw [ho]
    exact ⟨Kernel.reduce_of_twiceEmpty htwice hsize _ _ _, hrows, rfl, rfl⟩

/-- Three rows without values are folded to three values, and no rows without values are refused. -/
theorem reduce_runs_unless_twice_empty_rows :
    let x := BufferId.ofNat
    let g := Graph.empty.after [.input "e" [3, 0], .input "v" [0, 0]]
    let m := ((Machine.new 0).put (x 0) ⟨[3, 0], #[]⟩).put (x 1) ⟨[0, 0], #[]⟩
    let rows : Step := ⟨.reduce .max, x 2, [x 0], [3]⟩
    let void : Step := ⟨.reduce .max, x 2, [x 1], [0]⟩
    g.inferShape rows.op rows.operands = .ok rows.shape ∧
      g.inferShape void.op void.operands = .ok void.shape ∧
      ¬ Shape.TwiceEmpty [3, 0] ∧ Shape.TwiceEmpty [0, 0] ∧
      (∃ r, (Engine.run [rows] m .zero).engine.read (x 2) = some r ∧ r.shape = [3] ∧
        r.data.size = 3) ∧
      (Engine.run [void] m .zero).engine = m ∧
      (Engine.run [void] m .zero).stop =
        some (.error (.ofStep (x 2) (.wrongResult (.reduce .max) 1 [0]))) := by
  intro x g m rows void
  have hrows : g.inferShape rows.op rows.operands = .ok rows.shape :=
    toOption_eq_some.mp (by decide +kernel)
  have hvoid : g.inferShape void.op void.operands = .ok void.shape :=
    toOption_eq_some.mp (by decide +kernel)
  have hshape₀ : g.shape (x 0) = .ok [3, 0] := toOption_eq_some.mp (by decide +kernel)
  have hshape₁ : g.shape (x 1) = .ok [0, 0] := toOption_eq_some.mp (by decide +kernel)
  have honce : ¬ Shape.TwiceEmpty [3, 0] := by decide
  have htwice : Shape.TwiceEmpty [0, 0] := by decide
  have hrun := ((reduce_runs_unless_twice_empty [3, 0] .max).2 g m (x 0) (x 2) ⟨[3, 0], #[]⟩ [3]
    .zero hshape₀ hrows (by decide +kernel) rfl rfl).1 honce
  have hrefuse := ((reduce_runs_unless_twice_empty [0, 0] .max).2 g m (x 1) (x 2) ⟨[0, 0], #[]⟩ [0]
    .zero hshape₁ hvoid (by decide +kernel) rfl rfl).2 htwice
  obtain ⟨-, -, hengine, hstop⟩ := hrefuse
  have hnone : (Engine.run [rows] m .zero).stop = none := by decide +kernel
  rw [hnone] at hrun
  exact ⟨hrows, hvoid, honce, htwice, hrun, hengine, hstop⟩

/-- An input without rows and without columns can be summed in a graph, and not on a machine: the
shape that is inferred counts no values, and one is made. -/
theorem reduce_refused_for_two_empty_axes :
    let x := BufferId.ofNat
    let g := Graph.empty.after [.input "x" [0, 0]]
    let g' := g.grow "y" (.apply (.reduce .sum) [x 0] [0])
    let b : Buffer := ⟨[0, 0], #[]⟩
    let m := (Machine.new 0).put (x 0) b
    let s : Step := ⟨.reduce .sum, x 1, [x 0], [0]⟩
    (push "y" (.reduce .sum) [x 0]).run g = (.ok (x 1), g') ∧ g'.step? (x 1) = some s ∧
      (Machine.insert (x 0) b).run (.new 0) = (.ok (), m) ∧ b.data.size = b.shape.count ∧
      Kernel.reduce b.shape ReduceOp.sum.start ReduceOp.sum.apply b.data =
        .ok #[ReduceOp.sum.start] ∧
      s.shape.count = 0 ∧
      (Engine.run [s] m .zero).stop =
        some (.error (.ofStep (x 1) (.wrongResult (.reduce .sum) 1 [0]))) ∧
      (Engine.run [s] m .zero).engine.read (x 1) = none := by
  intro x g g' b m s
  have hinfer : g.inferShape (.reduce .sum) [x 0] = .ok [0] :=
    toOption_eq_some.mp (by decide +kernel)
  have hpush := (push_adds hinfer "y").ok (by decide +kernel) (accepts_of_inferShape hinfer)
  have hsize : g.size = 1 := by decide +kernel
  exact ⟨hsize ▸ hpush, by decide +kernel, Machine.insert_run_of_size rfl _, rfl, rfl, rfl,
    by decide +kernel, by decide +kernel⟩

end Graph

end Staging
