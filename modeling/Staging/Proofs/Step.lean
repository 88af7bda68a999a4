import Mathlib.Data.List.Basic
import Staging.Machine
import Staging.Proofs.Shape

/-!
# What a step depends on

What a step stores, where it leaves the generator and what it costs, taken together, is its outcome
(`Step.outcome`). A step reads its operands and nothing else (`Step.outcome_congr`), and a step that
brings in no values from outside neither reads nor moves the generator (`Step.gives_of_outcome`). So
what such a step stores and costs is a matter of its operands alone, which `Step.Gives` says.

What a step computes is one thing (`Step.Computes`), and whether the numbers that are counted for it
fit into a word is another (`Step.Overflows`); a step stores what it computes unless they do not
(`Step.Computes.cases`).
-/

namespace Staging.Step

variable {s : Step} {read read' : Reader}

/-- The buffer that a step stores, the generator after it, and what it costs. -/
def outcome (s : Step) (read : Reader) (g : Generator) :
    Result ExecError (Buffer × Generator × Cost) := do
  let (data, g) ← s.evaluate read g
  let cost ← s.checkedCost read data
  return (⟨s.shape, data⟩, g, cost)

/-! ## Operands -/

theorem operand_congr (h : ∀ x ∈ s.operands, read x = read' x) (i : Nat) :
    s.operand read i = s.operand read' i := by
  unfold operand
  cases hi : s.operands[i]? with
  | none => rfl
  | some x => simp only [h x (List.mem_of_getElem? hi)]

theorem readCount_congr (h : ∀ x ∈ s.operands, read x = read' x) :
    s.readCount read = s.readCount read' := by
  unfold readCount
  rw [List.filterMap_congr h]

theorem innerLength_congr (h : ∀ x ∈ s.operands, read x = read' x) :
    s.innerLength read = s.innerLength read' := by
  unfold innerLength
  cases hx : s.operands.head? with
  | none => rfl
  | some x => simp only [Option.bind_some, h x (List.mem_of_mem_head? hx)]

theorem evaluate_congr (h : ∀ x ∈ s.operands, read x = read' x) (g : Generator) :
    s.evaluate read g = s.evaluate read' g := by
  unfold evaluate evaluateBinary evaluateProduct
  simp only [operand_congr h]

theorem cost_congr (h : ∀ x ∈ s.operands, read x = read' x) : s.cost read = s.cost read' := by
  unfold cost opCount
  simp only [readCount_congr h, innerLength_congr h]

/-- **A step reads its operands and nothing else.** -/
theorem outcome_congr (h : ∀ x ∈ s.operands, read x = read' x) (g : Generator) :
    s.outcome read g = s.outcome read' g := by
  unfold outcome checkedCost
  simp only [evaluate_congr h, cost_congr h]

/-! ## The generator -/

private theorem pair_map {ε α : Type} (x : Except ε α) (g g' : Generator) :
    (do return (← x, g)) = Except.map (fun r => (r.1, g)) (do return (← x, g')) := by
  cases x <;> rfl

/-- The values of a step without a load are the same for every generator, which stays as it is. -/
theorem evaluate_generator (hs : s.op.isLoad = false) (read : Reader) (g g' : Generator) :
    s.evaluate read g = (s.evaluate read g').map fun r => (r.1, g) := by
  unfold evaluate
  -- a load is the only operation that is handed the generator
  cases hop : s.op with
  | load op => simp [hop, Op.isLoad] at hs
  | fill value => exact pair_map _ g g'
  | unary op => cases s.operand read 0 <;> rfl
  | binary op => exact pair_map _ g g'
  | reduce op =>
    cases s.operand read 0 with
    | error e => rfl
    | ok x => exact pair_map (Result.ofFaulty (Kernel.reduce x.shape op.start op.apply x.data)) g g'
  | matmul => exact pair_map _ g g'

theorem generator_of_evaluate (hs : s.op.isLoad = false) {g g' : Generator} {data : Array Scalar}
    (h : s.evaluate read g = .ok (data, g')) : g' = g := by
  have hkept := evaluate_generator hs read g g
  rw [h] at hkept
  cases hkept
  rfl

/-- A generator that was moved has drawn as many values as the shape asks for. -/
theorem evaluate_cases {g g' : Generator} {data : Array Scalar}
    (h : s.evaluate read g = .ok (data, g')) : g' = g ∨ s.size = .ok data.size := by
  by_cases hs : s.op.isLoad = false
  · exact .inl (generator_of_evaluate hs h)
  · unfold evaluate at h
    split at h
    next =>
      obtain ⟨n, hn, h⟩ := bind_eq_ok.mp h
      obtain ⟨-, -, h⟩ := bind_eq_ok.mp h
      cases h
      rw [List.size_toArray, Generator.length_draws]
      exact .inr (Result.ofFaulty_eq_ok.mp hn)
    next =>
      obtain ⟨values, -, h⟩ := bind_eq_ok.mp h
      cases h
      exact .inl rfl
    all_goals simp_all [Op.isLoad, Result.fail]

/-- Without a load, whether a step succeeds, and how it fails, is the same for every generator. -/
theorem outcome_generator (hs : s.op.isLoad = false) (read : Reader) (g g' : Generator) :
    s.outcome read g = (s.outcome read g').map fun r => (r.1, g, r.2.2) := by
  unfold outcome
  rw [evaluate_generator hs read g g']
  cases s.evaluate read g' with
  | error why => rfl
  | ok r =>
    simp only [Except.map, bind, Except.bind]
    cases s.checkedCost read r.1 <;> rfl

/-- Over these buffers the step stores `b` at cost `c`, whatever the generator, which stays as it
is. -/
def Gives (s : Step) (read : Reader) (b : Buffer) (c : Cost) : Prop :=
  ∀ g, s.outcome read g = .ok (b, g, c)

theorem Gives.congr {b : Buffer} {c : Cost} (h : ∀ x ∈ s.operands, read x = read' x)
    (hs : s.Gives read b c) : s.Gives read' b c :=
  fun g => (outcome_congr h g).symm.trans (hs g)

/-- Values are charged for when they are as many as the shape asks for and their cost fits. -/
theorem checkedCost_eq_ok {data : Array Scalar} {c : Cost} :
    s.checkedCost read data = .ok c ↔ s.size = .ok data.size ∧ s.cost read = .ok c := by
  unfold checkedCost
  constructor
  · intro h
    obtain ⟨n, hn, h⟩ := bind_eq_ok.mp h
    split at h
    next => cases h
    next hsize =>
      exact ⟨Decidable.not_not.mp hsize ▸ Result.ofFaulty_eq_ok.mp hn, Result.ofFaulty_eq_ok.mp h⟩
  · rintro ⟨hn, hcost⟩
    refine bind_eq_ok.mpr ⟨data.size, Result.ofFaulty_eq_ok.mpr hn, ?_⟩
    rw [if_neg (not_not_intro rfl)]
    exact Result.ofFaulty_eq_ok.mpr hcost

/-- As many values as the shape asks for are only refused because of a number that is too large. -/
theorem checkedCost_of_size {data : Array Scalar} (h : s.size = .ok data.size) :
    s.checkedCost read data = Result.ofFaulty (s.cost read) := by
  simp [checkedCost, h, Result.ofFaulty, bind, Except.bind]

/-- A step succeeds when it has the right number of values and a cost. -/
theorem outcome_eq_ok {g g' : Generator} {b : Buffer} {c : Cost} :
    s.outcome read g = .ok (b, g', c) ↔
      s.evaluate read g = .ok (b.data, g') ∧ s.size = .ok b.data.size ∧ s.shape = b.shape ∧
        s.cost read = .ok c := by
  unfold outcome
  constructor
  · intro h
    obtain ⟨⟨data, g₁⟩, hdata, h⟩ := bind_eq_ok.mp h
    obtain ⟨cost, hcost, h⟩ := bind_eq_ok.mp h
    cases h
    obtain ⟨hsize, hcost⟩ := checkedCost_eq_ok.mp hcost
    exact ⟨hdata, hsize, rfl, hcost⟩
  · rintro ⟨hdata, hn, hshape, hcost⟩
    obtain ⟨shape, data⟩ := b
    cases hshape
    exact bind_eq_ok.mpr ⟨(data, g'), hdata,
      bind_eq_ok.mpr ⟨c, checkedCost_eq_ok.mpr ⟨hn, hcost⟩, rfl⟩⟩

theorem Gives.cost {b : Buffer} {c : Cost} (h : s.Gives read b c) (g : Generator) :
    s.cost read = .ok c :=
  (outcome_eq_ok.mp (h g)).2.2.2

/-- One success of a step without a load tells what it gives. -/
theorem gives_of_outcome (hs : s.op.isLoad = false) {g g' : Generator} {b : Buffer} {c : Cost}
    (h : s.outcome read g = .ok (b, g', c)) : g' = g ∧ s.Gives read b c := by
  obtain ⟨hdata, hsize, hshape, hcost⟩ := outcome_eq_ok.mp h
  have hmap : ∀ g₁, s.evaluate read g₁ = .ok (b.data, g₁) := fun g₁ => by
    rw [evaluate_generator hs read g₁ g, hdata]
    rfl
  have hg := (hmap g).symm.trans hdata
  refine ⟨?_, fun g₁ => outcome_eq_ok.mpr ⟨hmap g₁, hsize, hshape, hcost⟩⟩
  simpa [eq_comm] using hg

/-! ## What is computed, and what is counted for it -/

/-- Over these buffers the step computes `b`, whatever the generator, which stays as it is: as many
values as its shape counts. What it costs is left open. -/
structure Computes (s : Step) (read : Reader) (b : Buffer) : Prop where
  evaluate : ∀ g, s.evaluate read g = .ok (b.data, g)
  size : b.data.size = s.shape.count
  shape : b.shape = s.shape

theorem Computes.congr {b : Buffer} (h : ∀ x ∈ s.operands, read x = read' x)
    (hs : s.Computes read b) : s.Computes read' b :=
  ⟨fun g => (evaluate_congr h g).symm.trans (hs.evaluate g), hs.size, hs.shape⟩

/-- A number that is computed from the sizes of a step does not fit into a word: the product of its
dimensions from the left on, the operations of a product of matrices, or the bytes that are read and
written. -/
def Overflows (s : Step) (read : Reader) : Prop :=
  s.size ≠ .ok s.shape.count ∨
    (s.op = .matmul ∧ Size.limit ≤ 2 * s.shape.count * max (s.innerLength read) 1) ∨
    Size.limit ≤ (s.readCount read + s.shape.count) * 4

instance (s : Step) (read : Reader) : Decidable (s.Overflows read) :=
  decidable_of_iff
    (s.size.toOption ≠ some s.shape.count ∨
      (s.op = .matmul ∧ Size.limit ≤ 2 * s.shape.count * max (s.innerLength read) 1) ∨
      Size.limit ≤ (s.readCount read + s.shape.count) * 4)
    (or_congr_left (not_congr toOption_eq_some))

theorem overflows_congr (h : ∀ x ∈ s.operands, read x = read' x) :
    s.Overflows read ↔ s.Overflows read' := by
  unfold Overflows
  rw [innerLength_congr h, readCount_congr h]

theorem opCount_cases (s : Step) (read : Reader) (n : Nat) :
    ((∃ ops, s.opCount read n = .ok ops) ∧
        ¬ (s.op = .matmul ∧ Size.limit ≤ 2 * n * max (s.innerLength read) 1)) ∨
      (s.opCount read n = .error .multiplyOverflow ∧
        s.op = .matmul ∧ Size.limit ≤ 2 * n * max (s.innerLength read) 1) := by
  unfold opCount
  generalize s.innerLength read = k
  cases s.op with
  | matmul =>
    -- twice the number of values has to fit, even where the sums are empty
    rcases Size.mul_cases 2 n with ⟨htwice, hmul⟩ | ⟨htwice, hmul⟩ <;> rw [hmul]
    · rcases Nat.eq_zero_or_pos k with rfl | hk
      · rw [Nat.max_eq_right (Nat.zero_le 1), Nat.mul_one]
        exact .inl ⟨⟨0, rfl⟩, fun h => absurd h.2 (Nat.not_le.mpr htwice)⟩
      · rw [Nat.max_eq_left hk]
        rcases Size.mul_cases (2 * n) k with ⟨hlt, hmul⟩ | ⟨hle, hmul⟩
        · exact .inl ⟨⟨_, hmul⟩, fun h => absurd h.2 (Nat.not_le.mpr hlt)⟩
        · exact .inr ⟨hmul, rfl, hle⟩
    · exact .inr ⟨rfl, rfl, Nat.le_trans htwice (Nat.le_mul_of_pos_right _ (by omega))⟩
  | _ => exact .inl ⟨⟨_, rfl⟩, fun h => nomatch h.1⟩

/-- As many values as the shape counts are charged for, unless a number does not fit. -/
theorem checkedCost_cases {data : Array Scalar} (h : data.size = s.shape.count) (read : Reader) :
    ((∃ c, s.checkedCost read data = .ok c) ∧ ¬ s.Overflows read) ∨
      (s.checkedCost read data = .error (.fault .multiplyOverflow) ∧ s.Overflows read) := by
  unfold Overflows
  cases hsize : s.size with
  | error f =>
    refine .inr ⟨?_, .inl (nomatch ·)⟩
    rw [checkedCost, hsize, Shape.size_eq_error hsize]
    rfl
  | ok n =>
    obtain rfl := Shape.count_of_size hsize
    rw [checkedCost_of_size (h ▸ hsize), cost, hsize]
    rcases s.opCount_cases read s.shape.count with ⟨⟨ops, hops⟩, hfit⟩ | ⟨hops, hlarge⟩
    · rcases Size.mul_cases (s.readCount read + s.shape.count) 4 with ⟨hlt, hmul⟩ | ⟨hle, hmul⟩
      · simp only [bind, Except.bind, hops, hmul]
        refine .inl ⟨⟨_, rfl⟩, ?_⟩
        rintro (hne | hmatmul | hle)
        · exact hne rfl
        · exact hfit hmatmul
        · exact absurd hle (Nat.not_le.mpr hlt)
      · refine .inr ⟨?_, .inr (.inr hle)⟩
        simp only [bind, Except.bind, hops, hmul]
        rfl
    · refine .inr ⟨?_, .inr (.inl hlarge)⟩
      simp only [bind, Except.bind, hops]
      rfl

theorem Gives.computes {b : Buffer} {c : Cost} (h : s.Gives read b c) : s.Computes read b := by
  have hparts := fun g => outcome_eq_ok.mp (h g)
  obtain ⟨-, hsize, hshape, -⟩ := hparts default
  exact ⟨fun g => (hparts g).1, Shape.count_of_size hsize, hshape.symm⟩

/-- **A step stores what it computes**, unless a number does not fit, and then there is no other
reason to stop. -/
theorem Computes.cases {b : Buffer} (h : s.Computes read b) :
    ((∃ c, s.Gives read b c) ∧ ¬ s.Overflows read) ∨
      ((∀ g, s.outcome read g = .error (.fault .multiplyOverflow)) ∧ s.Overflows read) := by
  obtain ⟨heval, hsize, hshape⟩ := h
  rcases checkedCost_cases hsize read with ⟨⟨c, hcost⟩, hfit⟩ | ⟨hcost, hlarge⟩
  · obtain ⟨hs, hcost⟩ := checkedCost_eq_ok.mp hcost
    exact .inl ⟨⟨c, fun g => outcome_eq_ok.mpr ⟨heval g, hs, hshape.symm, hcost⟩⟩, hfit⟩
  · refine .inr ⟨fun g => ?_, hlarge⟩
    simp only [outcome, heval g, bind, Except.bind, hcost]

/-- A step gives a buffer when it computes it and all numbers fit. -/
theorem exists_gives_iff {b : Buffer} :
    (∃ c, s.Gives read b c) ↔ s.Computes read b ∧ ¬ s.Overflows read := by
  constructor
  · rintro ⟨c, h⟩
    rcases h.computes.cases with ⟨-, hfit⟩ | ⟨hstop, -⟩
    · exact ⟨h.computes, hfit⟩
    · cases (h default).symm.trans (hstop default)
  · rintro ⟨h, hfit⟩
    exact (h.cases.resolve_right fun hlarge => hfit hlarge.2).1

end Staging.Step
