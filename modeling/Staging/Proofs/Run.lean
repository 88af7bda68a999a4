import Staging.Proofs.Ends
import Staging.Proofs.Schedule
import Staging.Proofs.Step

/-!
# Runs of the reference machine

A run of a schedule whose steps are in order ends in a state that solves the schedule: every step,
evaluated over the final buffers, gives what is finally held for its output, and nothing else has
changed (`Solution`). There is at most one such state, the run reaches it, and the run stops early
only if there is none (`solution_of_runFrom`, `runFrom_of_solution`). A solution does not say in
which order the steps stand, so a schedule may be put into any other order that is an order in this
sense: `run_perm` says that the whole outcome stays the same.

A step that ends in an error leaves the machine as it was (`Machine.exec_error`), although the
generator is moved before the values are checked.
-/

namespace Staging

/-! ## Runs in two parts -/

/-- What two runs have counted together. -/
instance : Add Counters where
  add a b := ⟨a.kernels + b.kernels, a.ops + b.ops, a.mem + b.mem, a.time + b.time⟩

namespace Counters

theorem add_eq (a b : Counters) :
    a + b = ⟨a.kernels + b.kernels, a.ops + b.ops, a.mem + b.mem, a.time + b.time⟩ := rfl

theorem add_zero (c : Counters) : c + zero = c := by
  simp only [add_eq, zero, UInt64.add_zero]

/-- A step is counted in the same way before and after what was counted earlier. -/
theorem record_add (c d : Counters) (k : Cost) : c.record k + d = c + (zero.record k + d) := by
  simp only [add_eq, record, zero, UInt64.zero_add, UInt64.add_assoc]

end Counters

namespace Engine

variable {σ : Type} [Engine σ]

theorem runFrom_cons_ok {s : Step} {e e' : σ} {k : Cost} (h : (exec s).run e = (.ok k, e'))
    (rest : Schedule) (c : Counters) (n : Nat) :
    runFrom (s :: rest) e c n = runFrom rest e' (c.record k) (n + 1) := by
  simp only [runFrom, h]

theorem runFrom_cons_error {s : Step} {e e' : σ} {why : Stop}
    (h : (exec s).run e = (.error why, e')) (rest : Schedule) (c : Counters) (n : Nat) :
    runFrom (s :: rest) e c n = ⟨e', c, n, some why⟩ := by
  simp only [runFrom, h]

/-- The second part of a run begins where the first one ended, if that one ended well. -/
theorem runFrom_append (first second : Schedule) (e : σ) (c : Counters) (n : Nat) :
    runFrom (first ++ second) e c n =
      match (runFrom first e c n).stop with
      | none =>
        runFrom second (runFrom first e c n).engine (runFrom first e c n).counters
          (runFrom first e c n).finished
      | some _ => runFrom first e c n := by
  induction first generalizing e c n with
  | nil => rfl
  | cons s rest ih =>
    rw [List.cons_append]
    rcases h : (exec s).run e with ⟨why | k, e'⟩
    · rw [runFrom_cons_error h, runFrom_cons_error h]
    · rw [runFrom_cons_ok h, runFrom_cons_ok h, ih]

/-- The number of steps behind a run is only added to its count. -/
theorem runFrom_finished (schedule : Schedule) (e : σ) (c : Counters) (n : Nat) :
    runFrom schedule e c n =
      { runFrom schedule e c 0 with finished := n + (runFrom schedule e c 0).finished } := by
  induction schedule generalizing e c n with
  | nil => rfl
  | cons s rest ih =>
    rcases h : (exec s).run e with ⟨why | k, e'⟩
    · rw [runFrom_cons_error h, runFrom_cons_error h]
      rfl
    · rw [runFrom_cons_ok h, runFrom_cons_ok h, ih e' _ (n + 1), ih e' _ (0 + 1)]
      simp only [Outcome.mk.injEq, true_and, and_true]
      omega

/-- What was counted before a run is only added to. -/
theorem runFrom_counters (schedule : Schedule) (e : σ) (c : Counters) (n : Nat) :
    runFrom schedule e c n =
      { runFrom schedule e .zero n with
        counters := c + (runFrom schedule e .zero n).counters } := by
  induction schedule generalizing e c n with
  | nil => simp only [runFrom, Counters.add_zero]
  | cons s rest ih =>
    rcases h : (exec s).run e with ⟨why | k, e'⟩
    · simp only [runFrom_cons_error h, Counters.add_zero]
    · rw [runFrom_cons_ok h, runFrom_cons_ok h, ih e' (c.record k), ih e' (Counters.zero.record _)]
      simp only [Counters.record_add c]

end Engine

/-! ## Machines -/

namespace Machine

variable {m m' : Machine} {s : Step} {c : Cost}

/-- Two machines that hold the same buffers and generator are the same. -/
theorem ext_read (hread : ∀ x, m.read x = m'.read x) (hgen : m.generator = m'.generator) :
    m = m' := by
  obtain ⟨store, generator⟩ := m
  obtain ⟨store', generator'⟩ := m'
  cases hgen
  exact congrArg (Machine.mk · generator) (Store.ext_read hread)

/-- The generator is moved as soon as there are values, and the output is written at the end. -/
theorem exec_run (s : Step) (m : Machine) :
    (exec s).run m =
      match s.evaluate m.read m.generator with
      | .error why => (.error why, m)
      | .ok (data, g) =>
        match s.checkedCost m.read data with
        | .error why => (.error why, { m with generator := g })
        | .ok cost => (.ok cost, ⟨m.store.insert s.output ⟨s.shape, data⟩, g⟩) := by
  unfold exec
  rw [Action.run_bind_ok (Action.run_get m)]
  cases s.evaluate m.read m.generator with
  | error why => rfl
  | ok r =>
    obtain ⟨data, g⟩ := r
    rw [Action.run_bind_ok (Action.run_ofResult _ m), Action.run_bind_ok (Action.run_modify _ m)]
    cases hcost : s.checkedCost m.read data <;> simp only [hcost] <;> rfl

/-- Executing a step writes its output and nothing else. -/
theorem exec_eq_ok :
    (exec s).run m = (.ok c, m') ↔
      ∃ b g, s.outcome m.read m.generator = .ok (b, g, c) ∧
        m' = ⟨m.store.insert s.output b, g⟩ := by
  rw [exec_run]
  unfold Step.outcome
  cases s.evaluate m.read m.generator with
  | error why => simp [bind, Except.bind]
  | ok r =>
    cases hcost : s.checkedCost m.read r.1 <;>
      simp [bind, Except.bind, pure, Except.pure, hcost, eq_comm]

theorem exec_of_gives {b : Buffer} (h : s.Gives m.read b c) :
    (exec s).run m = (.ok c, ⟨m.store.insert s.output b, m.generator⟩) :=
  exec_eq_ok.mpr ⟨b, m.generator, h m.generator, rfl⟩

/-- What a step that fails can leave behind is a generator that was moved before its values were
found not to fit. -/
theorem exec_failed {why : Stop} (h : (exec s).run m = (.error why, m')) :
    s.outcome m.read m.generator = .error why ∧
      (m' = m ∨ ∃ data g, s.evaluate m.read m.generator = .ok (data, g) ∧
        s.checkedCost m.read data = .error why ∧ m' = { m with generator := g }) := by
  rw [exec_run] at h
  unfold Step.outcome
  cases heval : s.evaluate m.read m.generator with
  | error why' =>
    rw [heval] at h
    cases h
    exact ⟨rfl, .inl rfl⟩
  | ok r =>
    obtain ⟨data, g⟩ := r
    rw [heval] at h
    cases hcost : s.checkedCost m.read data with
    | error why' =>
      simp only [hcost] at h
      cases h
      exact ⟨by simp only [bind, Except.bind, hcost], .inr ⟨data, g, rfl, hcost, rfl⟩⟩
    | ok cost =>
      simp only [hcost] at h
      cases h

/-- A step that fails writes no buffer. -/
theorem exec_failed_store {why : Stop} (h : (exec s).run m = (.error why, m')) :
    m'.store = m.store := by
  obtain ⟨-, rfl | ⟨data, g, -, -, rfl⟩⟩ := exec_failed h <;> rfl

/-- **A step that ends in an error leaves no trace.** If it has drawn values, they were as many as
its shape asks for, and only a fault can come after that. -/
theorem exec_error {e : ExecError} (h : (exec s).run m = (.error (.error e), m')) : m' = m := by
  obtain ⟨-, rfl | ⟨data, g, heval, hcost, rfl⟩⟩ := exec_failed h
  · rfl
  · rcases Step.evaluate_cases heval with rfl | hsize
    · rfl
    · rw [Step.checkedCost_of_size hsize] at hcost
      cases hfault : s.cost m.read <;> rw [hfault] at hcost <;> cases hcost

/-- A step without a load leaves no trace however it fails. -/
theorem exec_failed_pure (hs : s.op.isLoad = false) {why : Stop}
    (h : (exec s).run m = (.error why, m')) : m' = m := by
  obtain ⟨-, rfl | ⟨data, g, heval, -, rfl⟩⟩ := exec_failed h
  · rfl
  · rw [Step.generator_of_evaluate hs heval]

/-- A step fails exactly as its outcome says. -/
theorem exec_of_outcome_error {why : Stop} (h : s.outcome m.read m.generator = .error why) :
    ∃ m', (exec s).run m = (.error why, m') := by
  rcases hexec : (exec s).run m with ⟨why' | k, m'⟩
  · cases h.symm.trans (exec_failed hexec).1
    exact ⟨m', rfl⟩
  · obtain ⟨b, g, hout, -⟩ := exec_eq_ok.mp hexec
    cases h.symm.trans hout

/-- A run of two parts ends well exactly when both parts do, and then ends as the second one does.
-/
theorem run_append (first second : Schedule) (m : Machine) (c : Counters) :
    let o := Engine.run first m c
    let o' := Engine.run second o.engine o.counters
    ((Engine.run (first ++ second) m c).stop = none ↔ o.stop = none ∧ o'.stop = none) ∧
      (o.stop = none → (Engine.run (first ++ second) m c).engine = o'.engine ∧
        (Engine.run (first ++ second) m c).counters = o'.counters) := by
  intro o o'
  have happend : Engine.run (first ++ second) m c =
      match o.stop with
      | none => Engine.runFrom second o.engine o.counters o.finished
      | some _ => o := Engine.runFrom_append first second m c 0
  have hfinished : Engine.runFrom second o.engine o.counters o.finished =
      { o' with finished := o.finished + o'.finished } :=
    Engine.runFrom_finished second o.engine o.counters o.finished
  rw [happend]
  cases hstop : o.stop with
  | none => simp [hfinished]
  | some why => simp [hstop]

@[simp] theorem read_insert (st : Store) (g : Generator) (x y : BufferId) (b : Buffer) :
    read ⟨st.insert x b, g⟩ y = if y = x then some b else st.read y :=
  Store.read_insert st x y b

/-- A run of one step ends as the step does, and what it stores is held then. -/
theorem run_single_ends {F : Stop → Prop} {P : Buffer → Prop}
    (h : Ends F (fun r => P r.1) (s.outcome m.read m.generator)) (c : Counters) :
    let o := Engine.run [s] m c
    match o.stop with
    | none => ∃ b, o.engine.read s.output = some b ∧ P b
    | some why => F why := by
  intro o
  rcases hexec : (exec s).run m with ⟨why | k, m'⟩
  · have ho : o = _ := Engine.runFrom_cons_error hexec [] c 0
    rw [(exec_failed hexec).1] at h
    rw [ho]
    exact h
  · obtain ⟨b, g, hout, rfl⟩ := exec_eq_ok.mp hexec
    have ho : o = _ := Engine.runFrom_cons_ok hexec [] c 0
    rw [hout] at h
    rw [ho]
    exact ⟨b, by rw [Engine.runFrom, read_insert, if_pos rfl], h⟩

theorem run_single_error {e : ExecError} (h : s.outcome m.read m.generator = .error (.error e))
    (c : Counters) : Engine.run [s] m c = ⟨m, c, 0, some (.error e)⟩ := by
  obtain ⟨m', hexec⟩ := exec_of_outcome_error h
  obtain rfl := exec_error hexec
  exact Engine.runFrom_cons_error hexec [] c 0

theorem insert_run_of_size {x : BufferId} {b : Buffer} (h : b.shape.size = .ok b.data.size)
    (m : Machine) : (insert x b).run m = (.ok (), m.put x b) := by
  unfold insert
  rw [h, Action.run_bind_ok (Action.run_ofFaulty_ok _ m), if_neg (not_not_intro rfl)]
  rfl

/-- A buffer with another number of values than its shape counts is refused, and leaves the machine
as it was. -/
theorem insert_run_of_wrong_size {x : BufferId} {b : Buffer} (h : b.shape.size ≠ .ok b.data.size)
    (m : Machine) : ∃ why, (insert x b).run m = (.error why, m) := by
  unfold insert
  cases hsize : b.shape.size with
  | error f => exact ⟨_, rfl⟩
  | ok n =>
    have hne : n ≠ b.data.size := fun heq => h (heq ▸ hsize)
    rw [Action.run_bind_ok (Action.run_ofFaulty_ok n m), if_pos hne]
    exact ⟨_, rfl⟩

/-- Storing a buffer, whether it is refused or not, leaves the others alone. -/
theorem read_insert_run (m : Machine) {x y : BufferId} (b : Buffer) (hxy : y ≠ x) :
    ((insert x b).run m).2.read y = m.read y := by
  by_cases hsize : b.shape.size = .ok b.data.size
  · rw [insert_run_of_size hsize, put, read_insert, if_neg hxy]
    rfl
  · obtain ⟨why, hrun⟩ := insert_run_of_wrong_size (x := x) hsize m
    rw [hrun]

/-- Storing a buffer checks the number of its values. -/
theorem insert_eq_ok {x : BufferId} {b : Buffer} :
    (insert x b).exec m = .ok m' ↔ b.shape.size = .ok b.data.size ∧ m' = m.put x b := by
  rw [Action.exec_eq_ok]
  by_cases hsize : b.shape.size = .ok b.data.size
  · rw [insert_run_of_size hsize]
    simp [hsize, eq_comm]
  · obtain ⟨why, hrun⟩ := insert_run_of_wrong_size (x := x) hsize m
    rw [hrun]
    simp [hsize]

theorem load_congr {x : BufferId} (h : m.read x = m'.read x) : m.load x = m'.load x := by
  unfold load
  rw [h]

theorem load_eq_ok {x : BufferId} {b : Buffer} : m.load x = .ok b ↔ m.read x = some b := by
  unfold load
  cases m.read x <;> simp

/-- A run, whether it ends well or not, writes outputs of its steps and nothing else. -/
theorem runFrom_frame (schedule : Schedule) (m : Machine) (c : Counters) (n : Nat) {x : BufferId}
    (hx : x ∉ schedule.outputs) : (Engine.runFrom schedule m c n).engine.read x = m.read x := by
  induction schedule generalizing m c n with
  | nil => rfl
  | cons s rest ih =>
    have hs : x ≠ s.output := fun h => hx (h ▸ List.mem_cons_self)
    have hrest : x ∉ Schedule.outputs rest := fun h => hx (List.mem_cons_of_mem _ h)
    rcases h : (exec s).run m with ⟨why | k, m'⟩
    · rw [Engine.runFrom_cons_error h]
      exact congrArg (Store.read · x) (exec_failed_store h)
    · obtain ⟨b, g, -, hr⟩ := exec_eq_ok.mp h
      rw [Engine.runFrom_cons_ok h, ih _ _ _ hrest, hr, read_insert, if_neg hs]
      rfl

end Machine

/-! ## Solutions -/

namespace Schedule

variable {schedule other : Schedule} {m m' : Machine}

/-- Over the buffers of `m'` every step gives what `m'` holds for its output, and `m'` is `m` but
for the outputs. -/
structure Solution (schedule : Schedule) (m m' : Machine) : Prop where
  gives : ∀ s ∈ schedule, ∃ b k, s.Gives m'.read b k ∧ m'.read s.output = some b
  frame : ∀ x, x ∉ schedule.outputs → m'.read x = m.read x
  generator : m'.generator = m.generator

/-- A solution holds all outputs, and whatever was held before. -/
theorem Solution.exists_read (h : schedule.Solution m m') {x : BufferId}
    (hx : x ∈ schedule.outputs ∨ (m.read x).isSome) : ∃ b, m'.read x = some b := by
  by_cases hmem : x ∈ schedule.outputs
  · obtain ⟨s, hs, rfl⟩ := List.mem_map.mp hmem
    obtain ⟨b, -, -, hb⟩ := h.gives s hs
    exact ⟨b, hb⟩
  · rw [h.frame x hmem]
    exact Option.isSome_iff_exists.mp (hx.resolve_left hmem)

/-- The counters after all steps, at the costs that the steps have over some buffers. -/
def charge (schedule : Schedule) (read : Step.Reader) (c : Counters) : Counters :=
  schedule.foldl
    (fun c s =>
      match s.cost read with
      | .ok k => c.record k
      | .error _ => c)
    c

theorem Solution.perm (h : schedule.Perm other) (hs : schedule.Solution m m') :
    other.Solution m m' where
  gives s hmem := hs.gives s (h.mem_iff.mpr hmem)
  frame x hx := hs.frame x fun hmem => hx ((h.map Step.output).mem_iff.mp hmem)
  generator := hs.generator

theorem charge_perm (h : schedule.Perm other) (read : Step.Reader) (c : Counters) :
    schedule.charge read c = other.charge read c := by
  refine h.foldl_eq' (fun s _ t _ c => ?_) c
  cases s.cost read with
  | error _ => cases t.cost read <;> rfl
  | ok k =>
    cases t.cost read with
    | error _ => rfl
    | ok l =>
      simp only [Counters.record, Counters.mk.injEq]
      exact ⟨trivial, by ac_rfl, by ac_rfl, by ac_rfl⟩

theorem solution_nil_iff : Solution [] m m' ↔ m' = m := by
  constructor
  · intro h
    exact Machine.ext_read (fun x => h.frame x List.not_mem_nil) h.generator
  · rintro rfl
    exact ⟨fun _ hs => absurd hs List.not_mem_nil, fun _ _ => rfl, rfl⟩

/-- **One step of a solution**: the first step gives its buffer at once, and what is left is a
solution of the other steps from there. -/
theorem solution_cons_iff {s : Step} {rest : Schedule} (hw : WellOrdered (s :: rest)) :
    Solution (s :: rest) m m' ↔
      ∃ b k, s.Gives m.read b k ∧ rest.Solution ⟨m.store.insert s.output b, m.generator⟩ m' := by
  constructor
  · intro h
    obtain ⟨b, k, hgives, hb⟩ := h.gives s List.mem_cons_self
    -- no step writes what the first one reads, so it reads the same before the run and after it
    have hsame : ∀ x ∈ s.operands, m'.read x = m.read x :=
      fun x hx => h.frame x (hw.operand_fresh hx)
    refine ⟨b, k, hgives.congr hsame, fun t ht => h.gives t (List.mem_cons_of_mem s ht), ?_,
      h.generator⟩
    intro x hx
    rw [Machine.read_insert]
    by_cases hxs : x = s.output
    · rw [if_pos hxs, hxs, hb]
    · rw [if_neg hxs]
      exact h.frame x fun hmem => (List.mem_cons.mp hmem).elim hxs hx
  · rintro ⟨b, k, hgives, h⟩
    have hout : m'.read s.output = some b := by
      rw [h.frame _ hw.output_fresh, Machine.read_insert, if_pos rfl]
    have hframe : ∀ x, x ∉ outputs (s :: rest) → m'.read x = m.read x := by
      intro x hx
      have hxs : x ≠ s.output := fun heq => hx (heq ▸ List.mem_cons_self)
      rw [h.frame x fun hmem => hx (List.mem_cons_of_mem _ hmem), Machine.read_insert, if_neg hxs]
      rfl
    refine ⟨fun t ht => ?_, hframe, h.generator⟩
    rcases List.mem_cons.mp ht with rfl | ht
    · exact ⟨b, k, hgives.congr fun x hx => (hframe x (hw.operand_fresh hx)).symm, hout⟩
    · exact h.gives t ht

/-- The steps of a schedule may be solved in two parts, one after the other. -/
theorem solution_append_iff {first second : Schedule} (hw : WellOrdered (first ++ second)) :
    Solution (first ++ second) m m' ↔ ∃ m₁, first.Solution m m₁ ∧ second.Solution m₁ m' := by
  induction first generalizing m with
  | nil =>
    refine ⟨fun h => ⟨m, solution_nil_iff.mpr rfl, h⟩, ?_⟩
    rintro ⟨m₁, hm, h⟩
    exact solution_nil_iff.mp hm ▸ h
  | cons s rest ih =>
    have hfirst : WellOrdered (s :: rest) := hw.sublist (List.sublist_append_left _ _)
    constructor
    · intro h
      obtain ⟨b, k, hgives, hrest⟩ := (solution_cons_iff hw).mp h
      obtain ⟨m₁, hrest, h⟩ := (ih hw.tail).mp hrest
      exact ⟨m₁, (solution_cons_iff hfirst).mpr ⟨b, k, hgives, hrest⟩, h⟩
    · rintro ⟨m₁, hfirst', h⟩
      obtain ⟨b, k, hgives, hrest⟩ := (solution_cons_iff hfirst).mp hfirst'
      exact (solution_cons_iff hw).mpr ⟨b, k, hgives, (ih hw.tail).mpr ⟨m₁, hrest, h⟩⟩

/-- A run that ends well ends in a solution. -/
theorem solution_of_runFrom (hw : schedule.WellOrdered) (hp : schedule.Pure) {c : Counters}
    {n : Nat} (h : (Engine.runFrom schedule m c n).stop = none) :
    schedule.Solution m (Engine.runFrom schedule m c n).engine := by
  induction schedule generalizing m c n with
  | nil => exact solution_nil_iff.mpr rfl
  | cons s rest ih =>
    rcases hexec : (Machine.exec s).run m with ⟨why | k, m₁⟩
    · rw [Engine.runFrom_cons_error hexec] at h
      cases h
    · rw [Engine.runFrom_cons_ok hexec] at h ⊢
      obtain ⟨b, g, hout, hr⟩ := Machine.exec_eq_ok.mp hexec
      obtain ⟨rfl, hgives⟩ := Step.gives_of_outcome (hp s List.mem_cons_self) hout
      have hrest := ih hw.tail (fun t ht => hp t (List.mem_cons_of_mem s ht)) h
      rw [hr] at hrest ⊢
      exact (solution_cons_iff hw).mpr ⟨b, k, hgives, hrest⟩

/-- **Where there is a solution, the run ends well and reaches it**, at the costs of the steps over
the buffers of the solution. -/
theorem runFrom_of_solution (hw : schedule.WellOrdered) (h : schedule.Solution m m')
    (c : Counters) (n : Nat) :
    Engine.runFrom schedule m c n =
      ⟨m', schedule.charge m'.read c, n + schedule.length, none⟩ := by
  induction schedule generalizing m c n with
  | nil =>
    rw [solution_nil_iff.mp h]
    rfl
  | cons s rest ih =>
    obtain ⟨b, k, hgives, hrest⟩ := (solution_cons_iff hw).mp h
    have hcost : s.cost m'.read = .ok k :=
      (hgives.congr fun x hx => (h.frame x (hw.operand_fresh hx)).symm).cost m.generator
    rw [Engine.runFrom_cons_ok (Machine.exec_of_gives hgives), ih hw.tail hrest]
    simp only [charge, List.foldl_cons, hcost, List.length_cons, Outcome.mk.injEq, true_and,
      and_true]
    omega

/-- A run ends well exactly when there is a solution. -/
theorem runFrom_iff_solution (hw : schedule.WellOrdered) (hp : schedule.Pure) (c : Counters)
    (n : Nat) : (Engine.runFrom schedule m c n).stop = none ↔ ∃ m', schedule.Solution m m' := by
  refine ⟨fun h => ⟨_, solution_of_runFrom hw hp h⟩, fun ⟨m', h⟩ => ?_⟩
  rw [runFrom_of_solution hw h c n]

/-- Where each step computes what `read` says of its output, and `m` holds the operands that no step
writes, nothing stops the run but a number that does not fit. -/
theorem stop_of_computes (hw : schedule.WellOrdered) {read : Step.Reader}
    (hsteps : ∀ s ∈ schedule, ∃ b, s.Computes read b ∧ read s.output = some b)
    (hread : ∀ s ∈ schedule, ∀ x ∈ s.operands, x ∉ schedule.outputs → m.read x = read x)
    (c : Counters) (n : Nat) :
    (Engine.runFrom schedule m c n).stop = none ∨
      (Engine.runFrom schedule m c n).stop = some (.fault .multiplyOverflow) := by
  induction schedule generalizing m c n with
  | nil => exact .inl rfl
  | cons s rest ih =>
    obtain ⟨⟨b, hcomputes, hb⟩, hsteps⟩ := List.forall_mem_cons.mp hsteps
    obtain ⟨hfirst, hrest⟩ := List.forall_mem_cons.mp hread
    have hhere : s.Computes m.read b :=
      hcomputes.congr fun x hx => (hfirst x hx (hw.operand_fresh hx)).symm
    rcases hhere.cases with ⟨⟨k, hgives⟩, -⟩ | ⟨hstop, -⟩
    · rw [Engine.runFrom_cons_ok (Machine.exec_of_gives hgives)]
      refine ih hw.tail hsteps (fun t ht x hx hout => ?_) _ _
      -- an operand that no later step writes was written just now, or is held since before
      rw [Machine.read_insert]
      by_cases hxs : x = s.output
      · rw [if_pos hxs, hxs, hb]
      · rw [if_neg hxs]
        exact hrest t ht x hx fun hmem => (List.mem_cons.mp hmem).elim hxs hout
    · obtain ⟨m', hexec⟩ := Machine.exec_of_outcome_error (hstop m.generator)
      rw [Engine.runFrom_cons_error hexec]
      exact .inr rfl

/-- There is at most one solution. -/
theorem Solution.unique (hw : schedule.WellOrdered) {m₁ m₂ : Machine}
    (h₁ : schedule.Solution m m₁) (h₂ : schedule.Solution m m₂) : m₁ = m₂ := by
  have hrun := (runFrom_of_solution hw h₁ .zero 0).symm.trans (runFrom_of_solution hw h₂ .zero 0)
  exact congrArg Outcome.engine hrun

/-- **The order of the steps does not matter**, as long as it is one: where a schedule runs well, so
does every other order of its steps, to the same end. -/
theorem run_perm (hw : schedule.WellOrdered) (ho : other.WellOrdered) (hp : schedule.Pure)
    (h : schedule.Perm other) {c : Counters} (hrun : (Engine.run schedule m c).stop = none) :
    Engine.run other m c = Engine.run schedule m c := by
  have hs := solution_of_runFrom hw hp hrun
  have hschedule := runFrom_of_solution hw hs c 0
  have hother := runFrom_of_solution ho (hs.perm h) c 0
  rw [← charge_perm h, ← h.length_eq] at hother
  exact hother.trans hschedule.symm

end Schedule

end Staging
