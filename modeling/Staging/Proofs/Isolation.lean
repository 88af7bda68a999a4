import Staging.Proofs.Split

/-!
# The static phase does not see the roots

Two machines agree outside of some ids when they hold the same buffers for every other id
(`Machine.AgreeOutside`); what they hold for these ids, and their generators, may be anything. A
step that reads none of the ids and brings in no values from outside does the same on both
(`Machine.exec_agree`), and so does a run of such steps (`Machine.runFrom_agree`).

The static half of a plan is made of such steps, in whatever order the schedule was: a step that
reads a root is put into the dynamic half, and so is a step that writes one. Hence nothing that is
stored for a root can leak into the static phase (`Plan.static_isolated`).
-/

namespace Staging

namespace Machine

variable {hidden : BufferId → Prop} {m m' : Machine} {s : Step}

/-- The same buffers are held for every id that is not hidden. -/
def AgreeOutside (hidden : BufferId → Prop) (m m' : Machine) : Prop :=
  ∀ x, ¬ hidden x → m.read x = m'.read x

theorem AgreeOutside.put (h : AgreeOutside hidden m m') (x : BufferId) (b : Buffer) :
    AgreeOutside hidden (m.put x b) (m'.put x b) := by
  intro y hy
  rw [Machine.put, Machine.put, read_insert, read_insert]
  by_cases hyx : y = x
  · rw [if_pos hyx, if_pos hyx]
  · rw [if_neg hyx, if_neg hyx]
    exact h y hy

/-- **One step on two machines** that hold the same operands: it fails on both for the same reason,
or stores the same buffer on both at the same cost. -/
theorem exec_agree (hs : s.op.isLoad = false) (hread : ∀ x ∈ s.operands, m.read x = m'.read x) :
    (∃ why, (exec s).run m = (.error why, m) ∧ (exec s).run m' = (.error why, m')) ∨
      ∃ b k, (exec s).run m = (.ok k, m.put s.output b) ∧
        (exec s).run m' = (.ok k, m'.put s.output b) := by
  have hsame : s.outcome m'.read m'.generator =
      (s.outcome m.read m.generator).map fun r => (r.1, m'.generator, r.2.2) := by
    rw [Step.outcome_congr fun x hx => (hread x hx).symm]
    exact Step.outcome_generator hs m.read m'.generator m.generator
  cases hout : s.outcome m.read m.generator with
  | error why =>
    rw [hout] at hsame
    obtain ⟨m₁, hm⟩ := exec_of_outcome_error hout
    obtain ⟨m₂, hm'⟩ := exec_of_outcome_error hsame
    obtain rfl := exec_failed_pure hs hm
    obtain rfl := exec_failed_pure hs hm'
    exact .inl ⟨why, hm, hm'⟩
  | ok r =>
    obtain ⟨b, g, k⟩ := r
    rw [hout] at hsame
    obtain ⟨rfl, -⟩ := Step.gives_of_outcome hs hout
    exact .inr ⟨b, k, exec_eq_ok.mpr ⟨b, _, hout, rfl⟩, exec_eq_ok.mpr ⟨b, _, hsame, rfl⟩⟩

/-- **A run on two machines** that agree outside of ids which no step reads: it ends in the same way
on both, with the same counters, and the machines agree again. -/
theorem runFrom_agree {schedule : Schedule} (hp : schedule.Pure)
    (hread : ∀ s ∈ schedule, ∀ x ∈ s.operands, ¬ hidden x) (h : AgreeOutside hidden m m')
    (c : Counters) (n : Nat) :
    let o := Engine.runFrom schedule m c n
    let o' := Engine.runFrom schedule m' c n
    AgreeOutside hidden o.engine o'.engine ∧ o.counters = o'.counters ∧ o.stop = o'.stop := by
  induction schedule generalizing m m' c n with
  | nil => exact ⟨h, rfl, rfl⟩
  | cons s rest ih =>
    obtain ⟨hpure, hrest⟩ := Schedule.pure_cons.mp hp
    obtain ⟨hfirst, hlater⟩ := List.forall_mem_cons.mp hread
    have hexec := exec_agree hpure fun x hx => h x (hfirst x hx)
    rcases hexec with ⟨why, hm, hm'⟩ | ⟨b, k, hm, hm'⟩
    · rw [Engine.runFrom_cons_error hm, Engine.runFrom_cons_error hm']
      exact ⟨h, rfl, rfl⟩
    · rw [Engine.runFrom_cons_ok hm, Engine.runFrom_cons_ok hm']
      exact ih hrest hlater (h.put s.output b) (c.record k) (n + 1)

end Machine

namespace Plan

variable {p : Plan} {schedule : Schedule} {roots : IdSet} {mask : DebugMask} {s : Step}

/-- No static step reads a root, in whatever order the schedule was. -/
theorem static_reads_no_root (hp : ofSchedule schedule roots mask = .ok p)
    (hs : s ∈ p.steps .static) {x : BufferId} (hx : x ∈ s.operands) : x ∉ roots := by
  obtain ⟨-, rfl⟩ := ofSchedule_eq_ok.mp hp
  obtain ⟨hmem, hout⟩ := Schedule.mem_independent.mp hs
  exact fun hroot => hout (Schedule.output_mem_of_reads_root hmem hx hroot)

theorem roots_subset_depends (hp : ofSchedule schedule roots mask = .ok p) {x : BufferId}
    (hx : x ∈ roots) : x ∈ p.depends := by
  obtain ⟨-, rfl⟩ := ofSchedule_eq_ok.mp hp
  exact Schedule.mem_dependents_of_root hx

/-- No static step writes a buffer that depends on the roots. -/
theorem static_output_not_mem (hp : ofSchedule schedule roots mask = .ok p) {x : BufferId}
    (hx : x ∈ p.depends) : x ∉ (p.steps .static).outputs := by
  obtain ⟨-, rfl⟩ := ofSchedule_eq_ok.mp hp
  intro hmem
  obtain ⟨s, hs, rfl⟩ := List.mem_map.mp hmem
  exact (Schedule.mem_independent.mp hs).2 hx

/-- **The static phase does not see the roots.** Every schedule without loads, in order or not, has
a plan for every set of roots. On two machines that hold the same buffers for all other ids, its
static phase ends in the same way, with the same error if there is one; the machines then hold the
same buffers for all other ids again, each holds for the roots what it held before, and the same
numbers of kernels, operations and bytes were added to what was counted. -/
theorem static_isolated (hp : schedule.Pure) (roots : IdSet) (mask : DebugMask) :
    ∃ p, ofSchedule schedule roots mask = .ok p ∧ ∀ (m₁ m₂ : Machine) (c₁ c₂ : Counters),
      Machine.AgreeOutside (· ∈ roots) m₁ m₂ →
        let o₁ := p.runPhase .static m₁ c₁
        let o₂ := p.runPhase .static m₂ c₂
        o₁.stop = o₂.stop ∧ Machine.AgreeOutside (· ∈ roots) o₁.engine o₂.engine ∧
          (∀ x ∈ roots, o₁.engine.read x = m₁.read x ∧ o₂.engine.read x = m₂.read x) ∧
          ∃ kernels ops mem,
            (o₁.counters.kernels = c₁.kernels + kernels ∧ o₁.counters.ops = c₁.ops + ops ∧
              o₁.counters.mem = c₁.mem + mem) ∧
            o₂.counters.kernels = c₂.kernels + kernels ∧ o₂.counters.ops = c₂.ops + ops ∧
              o₂.counters.mem = c₂.mem + mem := by
  obtain ⟨p, hplan⟩ : ∃ p, ofSchedule schedule roots mask = .ok p :=
    ⟨_, ofSchedule_eq_ok.mpr ⟨hp, rfl⟩⟩
  refine ⟨p, hplan, fun m₁ m₂ c₁ c₂ hagree => ?_⟩
  intro o₁ o₂
  -- both runs are compared as if nothing had been counted before them
  have h₁ : o₁ = _ := Engine.runFrom_counters (p.steps .static) m₁ c₁ 0
  have h₂ : o₂ = _ := Engine.runFrom_counters (p.steps .static) m₂ c₂ 0
  obtain ⟨hengine, hcounters, hstop⟩ := Machine.runFrom_agree (steps_pure hplan .static)
    (fun s hs x hx => static_reads_no_root hplan hs hx) hagree .zero 0
  have hframe : ∀ x ∈ roots, ∀ (m : Machine) (c : Counters),
      (p.runPhase .static m c).engine.read x = m.read x := by
    intro x hx m c
    exact Machine.runFrom_frame _ m c 0
      (static_output_not_mem hplan (roots_subset_depends hplan hx))
  refine ⟨?_, ?_, fun x hx => ⟨hframe x hx m₁ c₁, hframe x hx m₂ c₂⟩, ?_⟩
  · rw [h₁, h₂]
    exact hstop
  · rw [h₁, h₂]
    exact hengine
  · rw [h₁, h₂, ← hcounters]
    exact ⟨_, _, _, ⟨rfl, rfl, rfl⟩, rfl, rfl, rfl⟩

/-- A step that reads what a later step writes and has an operand too many, a root that is written
by a step, and machines with other shapes for the input and other generators. -/
theorem static_isolated_out_of_order :
    let x := BufferId.ofNat
    let schedule : Schedule := [
      ⟨.unary .neg, x 3, [x 2, x 9], [1]⟩, ⟨.fill 1, x 2, [], [1]⟩,
      ⟨.binary .add, x 4, [x 0, x 3], [1]⟩, ⟨.fill 2, x 5, [], [1]⟩]
    let roots := IdSet.ofList [x 0, x 5]
    let m₁ := ((Machine.new 0).put (x 2) ⟨[1], #[7]⟩).put (x 0) ⟨[1], #[1]⟩
    let m₂ := ((Machine.new 1).put (x 2) ⟨[1], #[7]⟩).put (x 0) ⟨[2], #[2, 3]⟩
    schedule.Pure ∧ Machine.AgreeOutside (· ∈ roots) m₁ m₂ ∧
      ∃ p, ofSchedule schedule roots {} = .ok p ∧
        (p.runPhase .static m₁ .zero).stop = (p.runPhase .static m₂ .zero).stop ∧
        (p.runPhase .static m₁ .zero).engine.read (x 3) =
          (p.runPhase .static m₂ .zero).engine.read (x 3) ∧
        (p.runPhase .static m₁ .zero).engine.read (x 0) = some ⟨[1], #[1]⟩ := by
  intro x schedule roots m₁ m₂
  have hpure : schedule.Pure := by decide
  have hroot : x 0 ∈ roots := IdSet.mem_ofList.mpr (by decide)
  have hagree : Machine.AgreeOutside (· ∈ roots) m₁ m₂ := by
    intro y hy
    have hne : y ≠ x 0 := fun heq => hy (heq ▸ hroot)
    simp [m₁, m₂, Machine.put, Machine.read, Machine.new, hne]
  obtain ⟨p, hp, h⟩ := static_isolated hpure roots {}
  obtain ⟨hstop, hengine, hframe, -⟩ := h m₁ m₂ .zero .zero hagree
  refine ⟨hpure, hagree, p, hp, hstop, hengine (x 3) ?_, (hframe (x 0) hroot).1.trans ?_⟩
  · exact fun hmem => absurd (IdSet.mem_ofList.mp hmem) (by decide)
  · simp [m₁, Machine.put, Machine.read]

end Plan

end Staging
