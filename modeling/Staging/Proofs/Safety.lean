import Staging.Proofs.Evaluation
import Staging.Proofs.Run

/-!
# Evaluation stays inside of its buffers

Nothing checks a step before it is evaluated: it may have too few operands or too many, any shape,
and operands that do not fit together. How it can fail all the same is said once (`Step.Fails`):
with an error that names the step, or with a fault, which over consistent buffers is nothing but a
number that is too large (`Step.evaluate_ends`). No index lies outside, and neither a remainder nor
a row is ever taken by a length of zero.

Buffers are consistent when they have as many values as their shapes count. Storing a buffer and
executing a step both establish it for what they write, so it holds of a machine after every list of
calls (`Machine.Consistent.after`).

**What it does not establish.** That a step can be executed at all: it may be refused for many
reasons, each of them an error with a name. And where buffers are not consistent, nothing is said.
-/

namespace Staging

/-- A fold along the last axis asks nothing of its operand: an axis of length zero is found before
the values are cut into rows. -/
theorem Kernel.reduce_ends {α : Type} (shape : Shape) (init : α) (f : α → α → α) (xs : Array α) :
    Ends (Fault.Overflow True) (fun _ => True) (reduce shape init f xs) := by
  unfold reduce foldRows cut rowCount
  by_cases hwidth : shape.last = 0
  · rw [if_pos hwidth]
    -- a shape without axes has rows of one value
    cases shape with
    | nil => exact absurd hwidth Nat.one_ne_zero
    | cons d s =>
      refine (Shape.size_ends (.inr trivial)).bind fun rows _ => ?_
      exact (Size.reserve_ends (.inr trivial)).bind fun _ _ => trivial
  · rw [if_neg hwidth, if_neg hwidth]
    trivial

/-! ## Steps -/

namespace Step

variable {s : Step} {read : Reader}

/-- Every buffer that can be read has as many values as its shape counts. -/
def Reader.Consistent (read : Reader) : Prop := ∀ x b, read x = some b → b.Consistent

/-- How a step over some buffers may fail: with an error that names the step, or with a fault, which
over consistent buffers is that a number was too large. -/
def Fails (s : Step) (read : Reader) : Failure ExecError → Prop
  | .error e => e.step = some s.output
  | .fault f => Reader.Consistent read → f.Overflow True

/-- A number that is too large is a failure of any step. -/
theorem fails_ofFaulty {α : Type} {P : α → Prop} {x : Except Fault α}
    (hx : Ends (Fault.Overflow True) P x) : Ends (s.Fails read) P (Result.ofFaulty x) :=
  Ends.ofFaulty (hx.weaken fun _ hf _ => hf)

theorem size_ends (s : Step) : Ends (Fault.Overflow True) (fun _ => True) s.size :=
  (Shape.size_ends (.inr trivial)).imp fun _ _ => trivial

theorem operand_ends (s : Step) (read : Reader) (i : Nat) :
    Ends (s.Fails read) (fun b => ∃ x, read x = some b) (s.operand read i) := by
  unfold operand
  split
  next => rfl
  next x _ =>
    split
    next => rfl
    next b hb => exact ⟨x, hb⟩

/-- What can be repeated has values, and nothing else is divided by. -/
theorem repeats_ends (b : Buffer) (n : Nat) :
    Ends (Fault.Overflow True) (fun fills => fills = true → 0 < b.data.size) (repeats b n) := by
  unfold repeats
  split
  next => exact Bool.noConfusion
  next hempty =>
    have hpos : 0 < b.data.size := Nat.pos_of_ne_zero (by simpa [Array.isEmpty] using hempty)
    rw [Size.rem_of_pos hpos]
    exact fun _ => hpos

theorem checkRepeats_ends (s : Step) (read : Reader) (n : Nat) (b : Buffer) :
    Ends (s.Fails read) (fun _ => 0 < b.data.size) (s.checkRepeats n b) := by
  unfold checkRepeats
  refine (fails_ofFaulty (repeats_ends b n)).bind fun fills hfills => ?_
  cases fills with
  | true => exact hfills rfl
  | false => rfl

theorem binary_ends (s : Step) (read : Reader) (op : BinaryOp) :
    Ends (s.Fails read) (fun _ => True) (s.evaluateBinary op read) := by
  unfold evaluateBinary
  refine (operand_ends s read 0).bind fun x _ => (operand_ends s read 1).bind fun y _ => ?_
  refine (fails_ofFaulty s.size_ends).bind fun n _ => ?_
  refine (checkRepeats_ends s read n x).bind fun _ hx => ?_
  refine (checkRepeats_ends s read n y).bind fun _ hy => ?_
  refine (fails_ofFaulty (Size.reserve_ends (.inr trivial))).bind fun _ _ => ?_
  obtain ⟨out, hout, -⟩ := Kernel.exists_binary op.apply n hx hy
  rw [hout]
  trivial

/-- The product of two buffers that are matrices by their shapes. -/
theorem matmul_ends {x y : Buffer} {m k n : Nat} (hx : ∃ i, read i = some x)
    (hy : ∃ i, read i = some y) (hxshape : x.shape = [m, k]) (hyshape : y.shape = [k, n]) :
    Ends (fun f => Reader.Consistent read → f.Overflow True) (fun _ => True)
      (Kernel.matmul (0 : Scalar) (· + ·) (· * ·) m k n x.data y.data) := by
  cases hout : Kernel.matmul (0 : Scalar) (· + ·) (· * ·) m k n x.data y.data with
  | ok out => trivial
  | error f =>
    -- over consistent buffers there is a product
    intro hread
    obtain ⟨i, hi⟩ := hx
    obtain ⟨j, hj⟩ := hy
    have hxsize : x.data.size = m * k := by
      rw [hread i x hi, hxshape, Shape.count_pair]
    have hysize : y.data.size = k * n := by
      rw [hread j y hj, hyshape, Shape.count_pair]
    obtain ⟨out, hok, -⟩ := Kernel.exists_matmul (0 : Scalar) (· + ·) (· * ·) hxsize hysize
    cases hout.symm.trans hok

theorem product_ends (s : Step) (read : Reader) :
    Ends (s.Fails read) (fun _ => True) (s.evaluateProduct read) := by
  unfold evaluateProduct
  refine (operand_ends s read 0).bind fun x hx => (operand_ends s read 1).bind fun y hy => ?_
  split
  next m k k' n hxshape hyshape =>
    split
    next hk =>
      refine (fails_ofFaulty (Size.mul_ends (.inr trivial))).bind fun count _ => ?_
      refine (fails_ofFaulty (Size.reserve_ends (.inr trivial))).bind fun _ _ => ?_
      exact Ends.ofFaulty (matmul_ends hx hy hxshape (hk ▸ hyshape))
    next => rfl
  next => rfl

/-- **Evaluation stays inside of its buffers**, whatever the step is: one case for each operation.
-/
theorem evaluate_ends (s : Step) (read : Reader) (g : Generator) :
    Ends (s.Fails read) (fun _ => True) (s.evaluate read g) := by
  unfold evaluate
  cases s.op with
  | load op =>
    cases op with
    | empty => exact (fails_ofFaulty (repeated_ends 0 (.inr trivial))).bind fun _ _ => trivial
    | random =>
      refine (fails_ofFaulty s.size_ends).bind fun n _ => ?_
      exact (fails_ofFaulty (Size.reserve_ends (.inr trivial))).bind fun _ _ => trivial
    | source => rfl
    | custom => rfl
  | fill value => exact (fails_ofFaulty (repeated_ends value (.inr trivial))).bind fun _ _ => trivial
  | unary op => exact (operand_ends s read 0).bind fun _ _ => trivial
  | binary op => exact (binary_ends s read op).bind fun _ _ => trivial
  | reduce op =>
    refine (operand_ends s read 0).bind fun x _ => ?_
    have hreduce := Kernel.reduce_ends x.shape op.start op.apply x.data
    exact (fails_ofFaulty hreduce).bind fun _ _ => trivial
  | matmul => exact (product_ends s read).bind fun _ _ => trivial

theorem cost_ends (s : Step) (read : Reader) :
    Ends (Fault.Overflow True) (fun _ => True) (s.cost read) := by
  unfold cost
  refine s.size_ends.bind fun n _ => ?_
  have hops : Ends (Fault.Overflow True) (fun _ => True) (s.opCount read n) := by
    unfold opCount
    cases s.op with
    | matmul =>
      refine (Size.mul_ends (.inr trivial)).bind fun twice _ => ?_
      exact (Size.mul_ends (.inr trivial)).imp fun _ _ => trivial
    | _ => trivial
  exact hops.bind fun ops _ => (Size.mul_ends (.inr trivial)).bind fun mem _ => trivial

theorem checkedCost_ends (s : Step) (read : Reader) (data : Array Scalar) :
    Ends (s.Fails read) (fun _ => True) (s.checkedCost read data) := by
  unfold checkedCost
  refine (fails_ofFaulty s.size_ends).bind fun n _ => ?_
  split
  next => rfl
  next => exact fails_ofFaulty (s.cost_ends read)

theorem outcome_ends (s : Step) (read : Reader) (g : Generator) :
    Ends (s.Fails read) (fun _ => True) (s.outcome read g) := by
  unfold outcome
  refine (s.evaluate_ends read g).bind fun r _ => ?_
  exact (s.checkedCost_ends read r.1).bind fun _ _ => trivial

end Step

/-! ## Machines -/

namespace Machine

variable {m m' : Machine} {x : BufferId} {b : Buffer}

/-- Every buffer that is held has as many values as its shape counts. -/
def Consistent (m : Machine) : Prop := Step.Reader.Consistent m.read

theorem consistent_new (seed : UInt64) : (new seed).Consistent := by
  intro x b hb
  rw [new, read, Store.read_empty] at hb
  cases hb

theorem Consistent.put (hm : m.Consistent) (hb : b.Consistent) (g : Generator) :
    Consistent ⟨m.store.insert x b, g⟩ := by
  intro y c hc
  rw [read_insert] at hc
  split at hc
  next =>
    cases hc
    exact hb
  next => exact hm y c hc

theorem Consistent.erase (hm : m.Consistent) (x : BufferId) : (m.erase x).Consistent := by
  intro y c hc
  rw [Machine.erase, read, Store.read_erase] at hc
  split at hc
  next => cases hc
  next => exact hm y c hc

theorem Consistent.of_store (hm : m.Consistent) (h : m'.store = m.store) : m'.Consistent :=
  fun x b hb => hm x b ((congrArg (Store.read · x) h).symm.trans hb)

/-- **One step** stores as many values as its shape counts, or nothing. -/
theorem Consistent.exec {s : Step} {r : Result ExecError Cost} (hm : m.Consistent)
    (h : (exec s).run m = (r, m')) : m'.Consistent := by
  cases r with
  | error why => exact hm.of_store (exec_failed_store h)
  | ok c =>
    obtain ⟨b, g, hout, rfl⟩ := exec_eq_ok.mp h
    obtain ⟨-, hsize, hshape, -⟩ := Step.outcome_eq_ok.mp hout
    have hb : b.Consistent := by
      rw [Step.size, hshape] at hsize
      exact Shape.count_of_size hsize
    exact hm.put hb g

/-- **A run**, whether it ends well or not, keeps a machine consistent. -/
theorem Consistent.runFrom (hm : m.Consistent) (schedule : Schedule) (c : Counters) (n : Nat) :
    (Engine.runFrom schedule m c n).engine.Consistent := by
  induction schedule generalizing m c n with
  | nil => exact hm
  | cons s rest ih =>
    rcases h : (Machine.exec s).run m with ⟨why | k, m'⟩
    · rw [Engine.runFrom_cons_error h]
      exact hm.exec h
    · rw [Engine.runFrom_cons_ok h]
      exact ih (hm.exec h) _ _

/-- A call on a machine, with any arguments. -/
inductive Call where
  | store (x : BufferId) (b : Buffer)
  | remove (x : BufferId)
  | run (schedule : Schedule) (c : Counters)

/-- The machine after a call, whether it fails or not: a run may stop early and leaves what its
steps have stored. -/
def call (m : Machine) : Call → Machine
  | .store x b => ((insert x b).run m).2
  | .remove x => m.erase x
  | .run schedule c => (Engine.run schedule m c).engine

/-- The machine after several calls. -/
def after (m : Machine) (calls : List Call) : Machine := calls.foldl call m

theorem Consistent.call (hm : m.Consistent) (c : Call) : (m.call c).Consistent := by
  cases c with
  | store x b =>
    rw [Machine.call]
    by_cases hsize : b.shape.size = .ok b.data.size
    · rw [insert_run_of_size hsize]
      exact hm.put (Shape.count_of_size hsize) m.generator
    · obtain ⟨why, hrun⟩ := insert_run_of_wrong_size (x := x) hsize m
      rw [hrun]
      exact hm
  | remove x => exact hm.erase x
  | run schedule c => exact hm.runFrom schedule c 0

theorem Consistent.after (hm : m.Consistent) (calls : List Call) : (m.after calls).Consistent := by
  induction calls generalizing m with
  | nil => exact hm
  | cons c calls ih => exact ih (hm.call c)

/-- **Machines stay consistent, and evaluation stays inside of its buffers.** After any list of
calls on a new machine, with any arguments and whether they fail or not, every buffer that is held
has as many values as its shape counts; and from there every step evaluates to values, to an error,
or to a fault because a product of sizes or a number of bytes was too large. -/
theorem after_consistent_guarded (seed : UInt64) (calls : List Call) :
    let m := (new seed).after calls
    (∀ x b, m.read x = some b → b.data.size = b.shape.count) ∧
      ∀ s : Step,
        (∃ values g, s.evaluate m.read m.generator = .ok (values, g)) ∨
          (∃ e, s.evaluate m.read m.generator = .error (.error e)) ∨
          s.evaluate m.read m.generator = .error (.fault .multiplyOverflow) ∨
          s.evaluate m.read m.generator = .error (.fault .capacityOverflow) := by
  intro m
  have hm : m.Consistent := (consistent_new seed).after calls
  refine ⟨hm, fun s => ?_⟩
  have hends := s.evaluate_ends m.read m.generator
  cases heval : s.evaluate m.read m.generator with
  | ok r => exact .inl ⟨r.1, r.2, rfl⟩
  | error why =>
    rw [heval] at hends
    cases why with
    | error e => exact .inr (.inl ⟨e, rfl⟩)
    | fault f =>
      obtain ⟨rfl | rfl, -⟩ := hends hm
      · exact .inr (.inr (.inl rfl))
      · exact .inr (.inr (.inr rfl))

/-- A buffer with fewer values than its shape counts, which no call stores, would be read outside.
-/
example (g : Generator) :
    (⟨.matmul, .ofNat 1, [.ofNat 0, .ofNat 0], [2, 2]⟩ : Step).evaluate
      (fun _ => some ⟨[2, 2], #[1]⟩) g = .error (.fault .outOfRange) := rfl

end Machine

end Staging
