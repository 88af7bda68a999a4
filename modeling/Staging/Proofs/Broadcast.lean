import Staging.Proofs.Built
import Staging.Proofs.Position
import Staging.Proofs.Safety

/-!
# Broadcasting

An operand of smaller shape is read at the trailing coordinates of the output, and at coordinate
zero along an axis of length one (`Shape.pick`). The machine does not compute coordinates: it reads
each operand from its start again whenever it ends. For the operands that shape inference accepts
the two are the same (`Shape.position_mod_of_covers`), so an operation on two arrays is the
operation on arrays that were broadcast (`Kernel.binary_at_index`).

Inference looks at dimensions and the machine at lengths. They agree on operands that have values;
an operand without values is accepted by inference and refused by the machine, although there is
nothing to be computed then (`Graph.binary_runs_unless_empty`).
-/

namespace Staging

/-! ## Coordinates of an operand -/

namespace Shape

variable {s out xs ys : Shape} {index outer inner : List Nat}

/-- Where an operand of this shape is read for a multi-index of the output: at the last coordinates,
as many as it has axes, with zero along each axis of length one. -/
def pick (s : Shape) (index : List Nat) : List Nat :=
  List.zipWith (fun d i => if d = 1 then 0 else i) s (index.drop (index.length - s.length))

private theorem zipWith_of_inside (h : s.Inside inner) :
    List.zipWith (fun d i => if d = 1 then 0 else i) s inner = inner := by
  induction h with
  | nil => rfl
  | @cons i d inner s hi _ ih =>
    rw [List.zipWith_cons_cons, ih]
    split
    next hd => rw [show i = 0 by omega]
    next => rfl

/-- A suffix is read at the last coordinates as they are: along an axis of length one there is no
other coordinate than zero. -/
theorem pick_append (outer : List Nat) (h : s.Inside inner) : s.pick (outer ++ inner) = inner := by
  have hlength : inner.length = s.length := List.Forall₂.length_eq h
  unfold pick
  rw [List.length_append, hlength, Nat.add_sub_cancel, List.drop_left]
  exact zipWith_of_inside h

/-- Where all axes have length one, all coordinates are zero. -/
theorem pick_of_ones (h : ∀ d ∈ s, d = 1) (index : List Nat) : ∀ i ∈ s.pick index, i = 0 := by
  unfold pick
  generalize index.drop (index.length - s.length) = index
  induction s generalizing index with
  | nil => exact fun _ hi => absurd hi List.not_mem_nil
  | cons d s ih =>
    obtain ⟨rfl, hs⟩ := List.forall_mem_cons.mp h
    cases index with
    | nil => exact fun _ hi => absurd hi List.not_mem_nil
    | cons i index => exact List.forall_mem_cons.mpr ⟨if_pos rfl, ih hs index⟩

/-- **Reading again from the start is reading at the coordinates of the operand.** -/
theorem position_mod_of_covers (h : covers out s s.count) (hindex : out.Inside index) :
    out.position index % s.count = s.position (s.pick index) := by
  rcases covers_cases h with hone | ⟨front, rfl⟩
  · rw [hone, Nat.mod_one, position_of_zeros (pick_of_ones (eq_one_of_count hone) index)]
  · -- the operand is one of the arrays along the outer axes, at a multiple of its length
    obtain ⟨outer, inner, rfl, houter, hinner⟩ := inside_append hindex
    rw [position_append houter, Nat.mul_add_mod_self_right, Nat.mod_eq_of_lt (position_lt hinner),
      pick_append outer hinner]

end Shape

/-- **An operation on two arrays broadcasts them.** For all shapes with a joint shape and arrays of
these shapes that have values, there is a result with as many values as the joint shape counts; at
every multi-index it is the function of the values of the operands at their coordinates. -/
theorem Kernel.binary_at_index {α : Type} {xs ys out : Shape} {x y : Array α}
    (h : xs.broadcast ys = .ok (some out)) (hx : x.size = xs.count) (hy : y.size = ys.count)
    (hxpos : 0 < x.size) (hypos : 0 < y.size) (f : α → α → α) :
    ∃ n r, out.size = .ok n ∧ Kernel.binary n f x y = .ok r ∧ r.size = n ∧
      ∀ index, out.Inside index → ∃ a b, x[xs.position (xs.pick index)]? = some a ∧
        y[ys.position (ys.pick index)]? = some b ∧ r[out.position index]? = some (f a b) := by
  obtain ⟨-, hsize, hxs, hys⟩ := Shape.broadcast_covers h
  obtain ⟨r, hr, -⟩ := exists_binary f out.count hxpos hypos
  obtain ⟨hrsize, hvalues⟩ := getElem?_of_binary hr
  refine ⟨out.count, r, hsize, hr, hrsize, fun index hindex => ?_⟩
  obtain ⟨a, b, ha, hb, hab⟩ := hvalues (out.position index) (Shape.position_lt hindex)
  rw [hx, Shape.position_mod_of_covers hxs hindex] at ha
  rw [hy, Shape.position_mod_of_covers hys hindex] at hb
  exact ⟨a, b, ha, hb, hab⟩

/-- A row that is repeated along the outer axis, and a matrix with a single value. -/
theorem Kernel.binary_at_index_row_and_value :
    let row := #[10, 20, 30]
    let matrix := #[1, 2, 3, 4, 5, 6]
    Shape.broadcast [3] [2, 3] = .ok (some [2, 3]) ∧
      Shape.broadcast [2, 3] [1, 1] = .ok (some [2, 3]) ∧ Shape.Inside [2, 3] [1, 2] ∧
      (∃ r, Kernel.binary 6 (· - ·) row matrix = .ok r ∧
        r[Shape.position [2, 3] [1, 2]]? = some (30 - 6)) ∧
      ∃ r, Kernel.binary 6 (· - ·) matrix #[4] = .ok r ∧
        r[Shape.position [2, 3] [1, 2]]? = some (6 - 4) := by
  intro row matrix
  have hrow : Shape.broadcast [3] [2, 3] = .ok (some [2, 3]) := rfl
  have hvalue : Shape.broadcast [2, 3] [1, 1] = .ok (some [2, 3]) := rfl
  have hindex : Shape.Inside [2, 3] [1, 2] := .cons (by decide) (.cons (by decide) .nil)
  refine ⟨hrow, hvalue, hindex, ?_, ?_⟩
  · obtain ⟨n, r, hn, hr, -, h⟩ := binary_at_index hrow (x := row) (y := matrix) rfl rfl
      (by decide) (by decide) (· - ·)
    cases hn
    obtain ⟨a, b, ha, hb, hab⟩ := h _ hindex
    cases ha
    cases hb
    exact ⟨r, hr, hab⟩
  · obtain ⟨n, r, hn, hr, -, h⟩ := binary_at_index hvalue (x := matrix) (y := #[4]) rfl rfl
      (by decide) (by decide) (· - ·)
    cases hn
    obtain ⟨a, b, ha, hb, hab⟩ := h _ hindex
    cases ha
    cases hb
    exact ⟨r, hr, hab⟩

/-! ## Operands without values -/

namespace Step

variable {s : Step} {read : Reader} {xs ys : Shape}

/-- Nothing can be repeated of an operand without values, even if nothing has to be. -/
theorem checkRepeats_of_empty {b : Buffer} (hb : b.data.size = 0) (n : Nat) :
    s.checkRepeats n b = .error (.error (.ofStep s.output (.noBroadcast b.shape s.shape))) := by
  have hempty : b.data.isEmpty = true := by rw [Array.isEmpty, hb]; rfl
  unfold checkRepeats repeats
  rw [hempty]
  rfl

/-- The first operand without values ends the evaluation. -/
theorem evaluateBinary_of_empty {op : BinaryOp} (hheld : Held read s.operands [xs, ys])
    (hjoint : xs.broadcast ys = .ok (some s.shape)) (hempty : 0 ∈ xs ∨ 0 ∈ ys) :
    s.evaluateBinary op read = .error (.error (.ofStep s.output
      (.noBroadcast (if 0 ∈ xs then xs else ys) s.shape))) := by
  obtain ⟨x, hx, hxfits⟩ := hheld.operand (i := 0) rfl
  obtain ⟨y, hy, hyfits⟩ := hheld.operand (i := 1) rfl
  obtain ⟨-, hsize, -, -⟩ := Shape.broadcast_covers hjoint
  unfold evaluateBinary
  rw [hx, hy, size, hsize]
  by_cases hxs : 0 ∈ xs
  · have hxempty : x.data.size = 0 := hxfits.2.trans (Shape.count_eq_zero.mpr hxs)
    simp only [bind, Except.bind, Result.ofFaulty]
    rw [checkRepeats_of_empty hxempty, hxfits.1, if_pos hxs]
  · obtain ⟨-, hxdvd, -⟩ := Shape.broadcast_cases hjoint
    have hys : 0 ∈ ys := hempty.resolve_left hxs
    have hyempty : y.data.size = 0 := hyfits.2.trans (Shape.count_eq_zero.mpr hys)
    simp only [bind, Except.bind, Result.ofFaulty]
    rw [checkRepeats_eq_ok hxfits hxs hxdvd, checkRepeats_of_empty hyempty, hyfits.1, if_neg hxs]

/-- A step on two operands that have values is ready; its joint shape is the larger one. -/
theorem ready_of_nonzero {op : BinaryOp} (hop : s.op = .binary op)
    (hheld : Held read s.operands [xs, ys]) (hjoint : xs.broadcast ys = .ok (some s.shape))
    (hxs : 0 ∉ xs) (hys : 0 ∉ ys) :
    s.Ready read [xs, ys] ∧ (s.Small [xs, ys] ∨ 1 <<< 60 ≤ s.shape.count) := by
  obtain ⟨hcases, hxdvd, hydvd⟩ := Shape.broadcast_cases hjoint
  have hshape : 0 ∉ s.shape := by
    rcases hcases with heq | heq
    · exact heq ▸ hxs
    · exact heq ▸ hys
  have hpos := Shape.count_pos hshape
  have hxle := Nat.le_of_dvd hpos hxdvd
  have hyle := Nat.le_of_dvd hpos hydvd
  refine ⟨⟨hop ▸ .binary hjoint, hop ▸ rfl, ?_, hheld⟩, ?_⟩
  · simp [hxs, hys, hshape]
  · by_cases hsmall : s.shape.count < 1 <<< 60
    · refine .inl fun zs hzs => ?_
      have hroom : s.op.headroom = 1 <<< 60 := by rw [hop]; rfl
      simp only [List.mem_cons, List.not_mem_nil, or_false] at hzs
      rcases hzs with rfl | rfl | rfl <;> omega
    · exact .inr (Nat.not_lt.mp hsmall)

end Step

namespace Graph

variable {g : Graph} {m : Machine} {op : BinaryOp} {x y : BufferId} {xs ys shape : Shape}

/-- What is inferred for two operands is their joint shape. -/
theorem broadcast_of_inferShape (hshapes : g.Shaped [x, y] [xs, ys])
    (hinfer : g.inferShape (.binary op) [x, y] = .ok shape) :
    xs.broadcast ys = .ok (some shape) := by
  obtain ⟨-, shapes, hshapes', hmakes⟩ := makes_of_inferShape hinfer
  have hsame : shapes = [xs, ys] :=
    List.right_unique_forall₂' (fun _ _ _ h h' => Except.ok.inj (h.symm.trans h')) hshapes' hshapes
  cases hsame
  cases hmakes with
  | binary hjoint => exact hjoint

/-- **The machine executes what inference accepts, unless an operand has no values.** Let a graph
infer a shape for an operation on two nodes, and let a machine hold buffers of the shapes of the
nodes. Where both have values, the step is executed and its buffer has the inferred shape; what may
stop it is a number that is too large, and only if the shape counts 2^60 values or more. Where one
has none, the machine refuses the step, names the first such operand, and is left as it was. -/
theorem binary_runs_unless_empty (hshapes : g.Shaped [x, y] [xs, ys])
    (hinfer : g.inferShape (.binary op) [x, y] = .ok shape)
    (hheld : Step.Held m.read [x, y] [xs, ys]) (z : BufferId) (c : Counters) :
    let o := Engine.run [⟨.binary op, z, [x, y], shape⟩] m c
    (0 ∉ xs → 0 ∉ ys →
      match o.stop with
      | none => ∃ b, o.engine.read z = some b ∧ b.shape = shape ∧ b.data.size = shape.count
      | some why => why.Overflow (1 <<< 60 ≤ shape.count)) ∧
    (0 ∈ xs ∨ 0 ∈ ys →
      o.engine = m ∧ o.stop = some (.error (.ofStep z
        (.noBroadcast (if 0 ∈ xs then xs else ys) shape)))) := by
  intro o
  let s : Step := ⟨.binary op, z, [x, y], shape⟩
  have hjoint := broadcast_of_inferShape hshapes hinfer
  refine ⟨fun hxs hys => ?_, fun hempty => ?_⟩
  · obtain ⟨hready, hsmall⟩ := Step.ready_of_nonzero (s := s) rfl hheld hjoint hxs hys
    exact Machine.run_single_ends (hready.outcome hsmall m.generator) c
  · have hvalues : s.evaluateBinary op m.read = .error (.error (.ofStep z
        (.noBroadcast (if 0 ∈ xs then xs else ys) shape))) :=
      Step.evaluateBinary_of_empty hheld hjoint hempty
    have hout : s.outcome m.read m.generator = .error (.error (.ofStep z
        (.noBroadcast (if 0 ∈ xs then xs else ys) shape))) := by
      simp only [Step.outcome, Step.evaluate, s, hvalues]
      rfl
    have ho : o = _ := Machine.run_single_error hout c
    rw [ho]
    exact ⟨rfl, rfl⟩

/-- A matrix plus a row is executed, and the row plus a matrix without rows is refused. -/
theorem binary_runs_unless_empty_row :
    let x := BufferId.ofNat
    let g := Graph.empty.after [.input "x" [2, 3], .input "y" [3], .input "e" [0, 3]]
    let a : Buffer := ⟨[2, 3], #[1, 2, 3, 4, 5, 6]⟩
    let b : Buffer := ⟨[3], #[7, 8, 9]⟩
    let e : Buffer := ⟨[0, 3], #[]⟩
    let m := (((Machine.new 0).put (x 0) a).put (x 1) b).put (x 2) e
    let full : Step := ⟨.binary .add, x 3, [x 0, x 1], [2, 3]⟩
    let void : Step := ⟨.binary .add, x 3, [x 1, x 2], [0, 3]⟩
    g.inferShape full.op full.operands = .ok full.shape ∧
      g.inferShape void.op void.operands = .ok void.shape ∧
      (∃ r, (Engine.run [full] m .zero).engine.read (x 3) = some r ∧ r.shape = [2, 3] ∧
        r.data.size = 6) ∧
      (Engine.run [void] m .zero).stop =
        some (.error (.ofStep (x 3) (.noBroadcast [0, 3] [0, 3]))) := by
  intro x g a b e m full void
  have hfull : g.inferShape full.op full.operands = .ok full.shape :=
    toOption_eq_some.mp (by decide +kernel)
  have hvoid : g.inferShape void.op void.operands = .ok void.shape :=
    toOption_eq_some.mp (by decide +kernel)
  have hshape₀ : g.shape (x 0) = .ok [2, 3] := toOption_eq_some.mp (by decide +kernel)
  have hshape₁ : g.shape (x 1) = .ok [3] := toOption_eq_some.mp (by decide +kernel)
  have hshape₂ : g.shape (x 2) = .ok [0, 3] := toOption_eq_some.mp (by decide +kernel)
  have hheld₀ : ∃ b, m.read (x 0) = some b ∧ b.Fits [2, 3] := ⟨a, by decide +kernel, rfl, rfl⟩
  have hheld₁ : ∃ b, m.read (x 1) = some b ∧ b.Fits [3] := ⟨b, by decide +kernel, rfl, rfl⟩
  have hheld₂ : ∃ b, m.read (x 2) = some b ∧ b.Fits [0, 3] := ⟨e, by decide +kernel, rfl, rfl⟩
  have hrun := binary_runs_unless_empty (.cons hshape₀ (.cons hshape₁ .nil)) hfull
    (.cons hheld₀ (.cons hheld₁ .nil)) (x 3) .zero
  have hrefuse := binary_runs_unless_empty (.cons hshape₁ (.cons hshape₂ .nil)) hvoid
    (.cons hheld₁ (.cons hheld₂ .nil)) (x 3) .zero
  refine ⟨hfull, hvoid, ?_, (hrefuse.2 (by decide)).2⟩
  have hends := hrun.1 (by decide) (by decide)
  have hstop : (Engine.run [full] m .zero).stop = none := by decide +kernel
  rw [hstop] at hends
  exact hends

/-- Two inputs without values can be added in a graph, and not on a machine. -/
theorem binary_refused_for_empty_inputs :
    let x := BufferId.ofNat
    let g := Graph.empty.after [.input "x" [0], .input "y" [0]]
    let g' := g.grow "z" (.apply (.binary .add) [x 0, x 1] [0])
    let b : Buffer := ⟨[0], #[]⟩
    let m := ((Machine.new 0).put (x 0) b).put (x 1) b
    let s : Step := ⟨.binary .add, x 2, [x 0, x 1], [0]⟩
    (push "z" (.binary .add) [x 0, x 1]).run g = (.ok (x 2), g') ∧ g'.step? (x 2) = some s ∧
      Step.Held m.read [x 0, x 1] [[0], [0]] ∧
      (Engine.run [s] m .zero).stop = some (.error (.ofStep (x 2) (.noBroadcast [0] [0]))) ∧
      (Engine.run [s] m .zero).engine.read (x 2) = none := by
  intro x g g' b m s
  have hinfer : g.inferShape (.binary .add) [x 0, x 1] = .ok [0] :=
    toOption_eq_some.mp (by decide +kernel)
  have hpush := (push_adds hinfer "z").ok (by decide +kernel) (accepts_of_inferShape hinfer)
  have hsize : g.size = 2 := by decide +kernel
  refine ⟨hsize ▸ hpush, by decide +kernel, ?_, by decide +kernel, by decide +kernel⟩
  exact .cons ⟨b, by decide +kernel, rfl, rfl⟩ (.cons ⟨b, by decide +kernel, rfl, rfl⟩ .nil)

end Graph

end Staging
