import Staging.Graph.Compile
import Staging.Proofs.Growth
import Staging.Proofs.Model

/-!
# The stream of random inputs

A generator is a stream of draws: `Generator.drawAt` is the draw at a position of it and
`Generator.skip` what is left behind a position. A sequence of normally distributed values cuts the
stream into pairs. The value at position `i` is a member of pair `i / 2` (`Generator.normalAt`),
which does not depend on how many values are made, and a sequence takes whole pairs
(`Generator.normals_eq`).

So the values of an input start where the pairs of the inputs before it end
(`Generator.getElem?_buffers`), and what comes behind an input does not change it
(`Generator.isPrefix_buffers`). What may be missing is the end of the computation: a shape whose
size is too large ends it for all inputs (`Graph.randomInputs_layout`).

**What it does not establish.** Nothing is said of how the draws, or the values made from them, are
distributed. What is said is where in the stream they stand.
-/

namespace Staging

namespace Generator

variable {std : Scalar} {g : Generator} {inputs more : List (BufferId × Shape)}
  {buffers buffers' : List (BufferId × Buffer)} {x : BufferId} {shape : Shape}

/-! ## Draws -/

/-- The generator after some draws. -/
def skip (g : Generator) (n : Nat) : Generator := (g.draws n).2

/-- The draw that comes after `n` others. -/
def drawAt (g : Generator) (n : Nat) : Scalar := (g.skip n).draw.1

theorem skip_succ (g : Generator) (n : Nat) : g.skip (n + 1) = g.draw.2.skip n := rfl

theorem skip_add (g : Generator) (a b : Nat) : g.skip (a + b) = (g.skip a).skip b := by
  induction a generalizing g with
  | zero => rw [Nat.zero_add]; rfl
  | succ a ih => rw [Nat.succ_add, skip_succ, skip_succ, ih]

theorem drawAt_add (g : Generator) (a b : Nat) : g.drawAt (a + b) = (g.skip a).drawAt b := by
  rw [drawAt, drawAt, skip_add]

theorem draws_eq (n : Nat) (g : Generator) :
    g.draws n = ((List.range n).map g.drawAt, g.skip n) := by
  induction n generalizing g with
  | zero => rfl
  | succ n ih =>
    have hdraws : g.draws (n + 1) = (g.draw.1 :: (g.draw.2.draws n).1, g.skip (n + 1)) := rfl
    rw [hdraws, ih, List.range_succ_eq_map, List.map_cons, List.map_map]
    rfl

/-! ## Pairs -/

/-- The number of draws that `n` values take. -/
def drawCount (n : Nat) : Nat := 2 * ((n + 1) / 2)

/-- The value at a position of a sequence of any length. -/
def normalAt (std : Scalar) (g : Generator) (i : Nat) : Scalar :=
  let pair := normalPair std (g.drawAt (2 * (i / 2))) (g.drawAt (2 * (i / 2) + 1))
  if i % 2 = 0 then pair.1 else pair.2

/-- Behind a pair the sequence goes on with the next draws. -/
theorem normalAt_add_two (std : Scalar) (g : Generator) (i : Nat) :
    g.normalAt std (i + 2) = (g.skip 2).normalAt std i := by
  have hfirst : 2 * ((i + 2) / 2) = 2 + 2 * (i / 2) := by omega
  have hparity : (i + 2) % 2 = i % 2 := by omega
  simp only [normalAt, hfirst, hparity, Nat.add_assoc, drawAt_add g 2]

/-- A longer sequence has a pair in front of a shorter one. -/
theorem normals_add_two (std : Scalar) (n : Nat) (g : Generator) :
    g.normals std (n + 2) = (g.normalAt std 0 :: g.normalAt std 1 :: ((g.skip 2).normals std n).1,
      ((g.skip 2).normals std n).2) := rfl

/-- **A sequence is the start of an endless one** and takes whole pairs of draws. -/
theorem normals_eq (std : Scalar) : ∀ (n : Nat) (g : Generator),
    g.normals std n = ((List.range n).map (g.normalAt std), g.skip (drawCount n))
  | 0, _ => rfl
  | 1, _ => rfl
  | n + 2, g => by
    have hcount : drawCount (n + 2) = 2 + drawCount n := by
      simp only [drawCount]
      omega
    have hrest : (List.range n).map ((g.skip 2).normalAt std) =
        (List.range n).map fun i => g.normalAt std (i + 2) :=
      List.map_congr_left fun i _ => (normalAt_add_two std g i).symm
    rw [normals_add_two, normals_eq std n (g.skip 2), hcount, skip_add, hrest,
      List.range_succ_eq_map, List.range_succ_eq_map]
    simp only [List.map_cons, List.map_map]
    rfl

theorem length_normals (std : Scalar) (n : Nat) (g : Generator) :
    (g.normals std n).1.length = n := by
  rw [normals_eq, List.length_map, List.length_range]

/-- A shorter sequence is the start of a longer one. -/
theorem isPrefix_normals (std : Scalar) (g : Generator) {a b : Nat} (h : a ≤ b) :
    (g.normals std a).1 <+: (g.normals std b).1 := by
  obtain ⟨d, rfl⟩ := Nat.exists_eq_add_of_le h
  rw [normals_eq, normals_eq, List.range_add, List.map_append]
  exact List.prefix_append _ _

theorem getElem?_normals {n i : Nat} (h : i < n) :
    (g.normals std n).1[i]? = some (g.normalAt std i) := by
  rw [normals_eq, List.getElem?_map, List.getElem?_range h]
  rfl

theorem getElem?_draws {n i : Nat} (h : i < n) : (g.draws n).1[i]? = some (g.drawAt i) := by
  rw [draws_eq, List.getElem?_map, List.getElem?_range h]
  rfl

/-- **The members of a pair** come from the draws of the pair, and the second one may be left out.
-/
theorem normals_pair {n j : Nat} (h : 2 * j < n) :
    ∃ u v, (g.draws (drawCount n)).1[2 * j]? = some u ∧
      (g.draws (drawCount n)).1[2 * j + 1]? = some v ∧
      (g.normals std n).1[2 * j]? = some (normalPair std u v).1 ∧
      (2 * j + 1 < n → (g.normals std n).1[2 * j + 1]? = some (normalPair std u v).2) := by
  have hdraws : 2 * j + 1 < drawCount n := by
    unfold drawCount
    omega
  refine ⟨_, _, getElem?_draws (Nat.lt_of_succ_lt hdraws), getElem?_draws hdraws, ?_, fun h' => ?_⟩
  · rw [getElem?_normals h]
    simp [normalAt]
  · have hpair : (2 * j + 1) / 2 = j := by omega
    rw [getElem?_normals h']
    simp [normalAt, hpair]

/-- Values are made unless there is no room for them. -/
theorem sample_eq_ok {n : Nat} {r : Array Scalar × Generator} :
    g.sample std n = .ok r ↔
      n * 4 < 1 <<< 63 ∧ r = ((g.normals std n).1.toArray, (g.normals std n).2) := by
  unfold sample
  rw [bind_eq_ok, ← Size.reserve_eq_ok]
  exact ⟨fun ⟨_, hreserve, h⟩ => ⟨hreserve, (Except.ok.inj h).symm⟩,
    fun ⟨hreserve, h⟩ => ⟨(), hreserve, congrArg Except.ok h.symm⟩⟩

/-! ## Inputs -/

/-- The number of draws that values for some inputs take. -/
def drawsFor (inputs : List (BufferId × Shape)) : Nat :=
  inputs.foldr (fun e n => drawCount e.2.count + n) 0

/-- **The first input** takes its pairs, and the others take what is left. -/
theorem buffers_cons_eq_ok :
    g.buffers std ((x, shape) :: inputs) = .ok buffers ↔ shape.Addressable ∧
      ∃ rest, (g.skip (drawCount shape.count)).buffers std inputs = .ok rest ∧
        buffers = (x, ⟨shape, (g.normals std shape.count).1.toArray⟩) :: rest := by
  have hgenerator : (g.normals std shape.count).2 = g.skip (drawCount shape.count) := by
    rw [normals_eq]
  constructor
  · intro h
    obtain ⟨n, hn, h⟩ := bind_eq_ok.mp h
    obtain ⟨r, hsample, h⟩ := bind_eq_ok.mp h
    obtain ⟨rest, hrest, h⟩ := bind_eq_ok.mp h
    cases Shape.count_of_size hn
    obtain ⟨hroom, rfl⟩ := sample_eq_ok.mp hsample
    cases h
    exact ⟨⟨hn, hroom⟩, rest, hgenerator ▸ hrest, rfl⟩
  · rintro ⟨⟨hsize, hroom⟩, rest, hrest, rfl⟩
    refine bind_eq_ok.mpr ⟨_, hsize, bind_eq_ok.mpr ⟨_, sample_eq_ok.mpr ⟨hroom, rfl⟩, ?_⟩⟩
    exact bind_eq_ok.mpr ⟨rest, hgenerator.symm ▸ hrest, rfl⟩

theorem exists_buffers :
    (∃ buffers, g.buffers std inputs = .ok buffers) ↔ ∀ e ∈ inputs, e.2.Addressable := by
  induction inputs generalizing g with
  | nil => exact ⟨fun _ e he => absurd he List.not_mem_nil, fun _ => ⟨[], rfl⟩⟩
  | cons e inputs ih =>
    obtain ⟨x, shape⟩ := e
    simp only [buffers_cons_eq_ok, List.forall_mem_cons, ← ih (g := g.skip (drawCount shape.count))]
    constructor
    · rintro ⟨_, haddressable, rest, hrest, -⟩
      exact ⟨haddressable, rest, hrest⟩
    · rintro ⟨haddressable, rest, hrest⟩
      exact ⟨_, haddressable, rest, hrest, rfl⟩

/-- Random inputs are as many values as their shapes ask for, unless a number was too large. -/
theorem buffers_ends {big : Prop} (std : Scalar)
    (h : ∀ e ∈ inputs, 0 ∉ e.2 ∧ Shape.count e.2 < 1 <<< 60 ∨ big) (g : Generator) :
    Ends (Fault.Overflow big)
      (fun buffers => buffers.map (fun e => (e.1, e.2.shape)) = inputs ∧
        ∀ e ∈ buffers, e.2.shape.size = .ok e.2.data.size)
      (g.buffers std inputs) := by
  induction inputs generalizing g with
  | nil => exact ⟨rfl, fun _ he => (nomatch he)⟩
  | cons e rest ih =>
    obtain ⟨x, shape⟩ := e
    obtain ⟨hsmall, hrest⟩ := List.forall_mem_cons.mp h
    refine (Shape.size_ends hsmall).and_eq_ok.bind fun n ⟨hn, hok⟩ => ?_
    have hsample : Ends (Fault.Overflow big) (fun r => r.1.size = n) (g.sample std n) :=
      (Size.reserve_ends (hn ▸ hsmall.imp_left And.right)).bind fun _ _ =>
        List.size_toArray.trans (length_normals std n g)
    refine hsample.bind fun r hr => ?_
    refine (ih hrest r.2).bind fun buffers ⟨hids, hsizes⟩ => ?_
    exact ⟨by rw [List.map_cons, hids], List.forall_mem_cons.mpr ⟨hr.symm ▸ hok, hsizes⟩⟩

/-- **Every input starts where the draws of those before it end.** -/
theorem getElem?_buffers (h : g.buffers std inputs = .ok buffers) {i : Nat}
    (hi : inputs[i]? = some (x, shape)) :
    buffers[i]? = some (x, ⟨shape,
      ((g.skip (drawsFor (inputs.take i))).normals std shape.count).1.toArray⟩) := by
  induction inputs generalizing g buffers i with
  | nil => cases hi
  | cons e inputs ih =>
    obtain ⟨-, rest, hrest, rfl⟩ := buffers_cons_eq_ok.mp h
    cases i with
    | zero =>
      cases hi
      rfl
    | succ i =>
      have hskip : g.skip (drawsFor ((e :: inputs).take (i + 1))) =
          (g.skip (drawCount e.2.count)).skip (drawsFor (inputs.take i)) :=
        skip_add g _ _
      rw [hskip]
      exact ih hrest hi

/-- **Further inputs do not change the values of those before them.** -/
theorem isPrefix_buffers (h : g.buffers std inputs = .ok buffers)
    (h' : g.buffers std (inputs ++ more) = .ok buffers') : buffers <+: buffers' := by
  induction inputs generalizing g buffers buffers' with
  | nil =>
    cases h
    exact List.nil_prefix
  | cons e inputs ih =>
    obtain ⟨-, rest, hrest, rfl⟩ := buffers_cons_eq_ok.mp h
    obtain ⟨-, rest', hrest', rfl⟩ := buffers_cons_eq_ok.mp h'
    exact List.cons_prefix_cons.mpr ⟨rfl, ih hrest hrest'⟩

end Generator

namespace Graph

variable {g g' : Graph}

theorem numbered_ids (g : Graph) : g.numbered.map Prod.fst = g.ids := by
  calc g.numbered.map Prod.fst
      = (g.nodes.toList.zipIdx.map Prod.snd).map BufferId.ofNat := by
        rw [numbered, List.map_map, List.map_map]
        rfl
    _ = g.ids := by
        rw [List.zipIdx_map_snd, ids, List.range_eq_range', Array.length_toList]
        rfl

/-- Inputs are listed in the order in which they were declared. -/
theorem inputs_sorted (hids : g.size ≤ UInt32.size) :
    g.inputs.Pairwise fun a b => a.1.index < b.1.index := by
  have hsorted : g.ids.Pairwise fun x y => x.index < y.index := by
    refine List.pairwise_map.mpr (List.pairwise_lt_range.imp_of_mem fun {i j} hi hj hlt => ?_)
    rw [List.mem_range] at hi hj
    rwa [BufferId.index_ofNat (by omega), BufferId.index_ofNat (by omega)]
  rw [← numbered_ids, List.pairwise_map] at hsorted
  refine List.pairwise_filterMap.mpr (hsorted.imp ?_)
  rintro ⟨x, n⟩ ⟨y, n'⟩ hlt p hp q hq
  cases n <;> cases n' <;> cases hp <;> cases hq
  exact hlt

/-- The inputs of a graph are the first inputs of a graph that has grown from it. -/
theorem Grown.isPrefix_inputs (h : g.Grown g') : g.inputs <+: g'.inputs := by
  obtain ⟨rest, hrest⟩ := h
  refine List.IsPrefix.filterMap _ ?_
  rw [numbered, numbered, ← hrest, List.zipIdx_append, List.map_append]
  exact List.prefix_append _ _

/-- **The layout of random inputs.** A sequence of `n` values, from every generator, takes the draws
of as many pairs as it needs, and the values at `2 * j` and `2 * j + 1` are the members of the pair
that is made from the draws at these positions; so a shorter sequence is the start of a longer one.
An array is made of it as long as that many values can be addressed.

Every graph has values for its inputs unless a number is too large, that is, unless an input has a
shape without a size or with more values than can be addressed. There is then one entry for each
input, in the order in which they were declared (as long as ids are enough for all nodes), with as
many values as the shape counts: the sequence that starts behind the draws of the inputs before it.
Further calls do not change these entries. -/
theorem randomInputs_layout (std : Scalar) :
    (∀ (n : Nat) (gen : Generator),
      let values := (gen.normals std n).1
      let drawn := (gen.draws (2 * ((n + 1) / 2))).1
      values.length = n ∧ (gen.normals std n).2 = (gen.draws (2 * ((n + 1) / 2))).2 ∧
        (∀ j, 2 * j < n → ∃ u v, drawn[2 * j]? = some u ∧ drawn[2 * j + 1]? = some v ∧
          values[2 * j]? = some (Generator.normalPair std u v).1 ∧
          (2 * j + 1 < n → values[2 * j + 1]? = some (Generator.normalPair std u v).2)) ∧
        (∀ k ≤ n, (gen.normals std k).1 <+: values) ∧
        ∀ r, gen.sample std n = .ok r ↔
          n * 4 < 1 <<< 63 ∧ r = (values.toArray, (gen.normals std n).2)) ∧
    ∀ (g : Graph) (seed : UInt64),
      let gen := Generator.ofSeed seed
      ((∃ buffers, g.randomInputs seed std = .ok buffers) ↔ ∀ e ∈ g.inputs, e.2.Addressable) ∧
      (∀ f, g.randomInputs seed std = .error f → f = .multiplyOverflow ∨ f = .capacityOverflow) ∧
      (g.size ≤ UInt32.size → g.inputs.Pairwise (fun a b => a.1.index < b.1.index) ∧
        ∀ x shape, (x, shape) ∈ g.inputs ↔ g.node? x = some (.input shape)) ∧
      ∀ buffers, g.randomInputs seed std = .ok buffers →
        buffers.map (fun e => (e.1, e.2.shape)) = g.inputs ∧
        (∀ i x shape, g.inputs[i]? = some (x, shape) → ∃ b, buffers[i]? = some (x, b) ∧
          b.shape = shape ∧ b.data.size = shape.count ∧
          b.data.toList =
            ((gen.draws (Generator.drawsFor (g.inputs.take i))).2.normals std shape.count).1) ∧
        ∀ calls buffers', (g.after calls).randomInputs seed std = .ok buffers' →
          buffers <+: buffers' := by
  refine ⟨fun n gen => ?_, fun g seed => ?_⟩
  · refine ⟨Generator.length_normals std n gen, ?_, fun j hj => Generator.normals_pair hj,
      fun k hk => Generator.isPrefix_normals std gen hk, fun r => Generator.sample_eq_ok⟩
    rw [Generator.normals_eq]
    rfl
  have hends := Generator.buffers_ends std (fun e (_ : e ∈ g.inputs) => .inr trivial) (.ofSeed seed)
  refine ⟨Generator.exists_buffers, fun f hf => ?_,
    fun hids => ⟨inputs_sorted hids, fun x shape => ?_⟩,
    fun buffers h => ⟨?_, fun i x shape hi => ?_, fun calls buffers' h' => ?_⟩⟩
  · rw [randomInputs] at hf
    rw [hf] at hends
    exact hends.1
  · rw [mem_inputs, mem_numbered hids]
  · rw [randomInputs] at h
    rw [h] at hends
    exact hends.1
  · refine ⟨_, Generator.getElem?_buffers h hi, rfl, ?_, rfl⟩
    rw [List.size_toArray, Generator.length_normals]
  · obtain ⟨more, hmore⟩ := (grown_after g calls).isPrefix_inputs
    rw [randomInputs, ← hmore] at h'
    exact Generator.isPrefix_buffers h h'

/-- An input of three values takes four draws, so the third of these inputs starts behind eight. -/
theorem randomInputs_layout_odd_size :
    let x := BufferId.ofNat
    let g := Graph.empty.after
      [.input "x" [3], .weight "w" [2] #[1, 2], .input "y" [2, 2], .input "z" []]
    let g' := g.after [.push "t" (.unary .neg) [x 0], .input "u" [5]]
    ∃ buffers buffers', g.randomInputs 3 8 = .ok buffers ∧ g'.randomInputs 3 8 = .ok buffers' ∧
      buffers.map (fun e => (e.1, e.2.shape)) = [(x 0, [3]), (x 2, [2, 2]), (x 3, [])] ∧
      buffers <+: buffers' ∧
      ∃ b, buffers[2]? = some (x 3, b) ∧ b.data.size = 1 ∧
        b.data.toList = (((Generator.ofSeed 3).draws 8).2.normals 8 1).1 := by
  intro x g g'
  have hinputs : g.inputs = [(x 0, [3]), (x 2, [2, 2]), (x 3, [])] := by decide +kernel
  have hinputs' : g'.inputs = [(x 0, [3]), (x 2, [2, 2]), (x 3, []), (x 5, [5])] := by
    decide +kernel
  obtain ⟨-, hlayout⟩ := randomInputs_layout 8
  obtain ⟨hexists, -, -, hentries⟩ := hlayout g 3
  obtain ⟨buffers, h⟩ := hexists.mpr (by rw [hinputs]; decide)
  obtain ⟨buffers', h'⟩ := (hlayout g' 3).1.mpr (by rw [hinputs']; decide)
  obtain ⟨hmap, hvalues, hgrown⟩ := hentries buffers h
  obtain ⟨b, hb, -, hsize, hdata⟩ := hvalues 2 (x 3) [] (by rw [hinputs]; rfl)
  have hoffset : Generator.drawsFor (g.inputs.take 2) = 8 := by
    rw [hinputs]
    decide
  have hcount : Shape.count [] = 1 := rfl
  rw [hoffset, hcount] at hdata
  exact ⟨buffers, buffers', h, h', hmap.trans hinputs, hgrown _ buffers' h', b, hb, hsize, hdata⟩

/-- An input without values for which there is no entry, as the product of its first two axes is too
large. -/
theorem randomInputs_refused_for_empty_shape :
    let g := Graph.empty.after [.input "x" [4294967296, 4294967296, 0]]
    g.Built ∧ g.inputs = [(BufferId.ofNat 0, [4294967296, 4294967296, 0])] ∧
      Shape.count [4294967296, 4294967296, 0] = 0 ∧
      ∀ seed std, g.randomInputs seed std = .error .multiplyOverflow := by
  intro g
  have hinputs : g.inputs = [(BufferId.ofNat 0, [4294967296, 4294967296, 0])] := by decide +kernel
  refine ⟨Built.empty.after _, hinputs, rfl, fun seed std => ?_⟩
  rw [randomInputs, hinputs]
  rfl

end Graph

end Staging
