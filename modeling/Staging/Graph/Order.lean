import Staging.Graph.Basic

/-!
# From a graph to a schedule

The nodes that are needed for some outputs are put into an order in which every node comes after its
operands. Two passes take references off a stack, which holds the outputs at first. The first pass
counts the references to each node; a node that is met for the first time puts its operands on the
stack. The second pass counts again, up to the totals of the first: a node is ready when its last
reference is taken, and only then puts its operands on the stack. The nodes become ready in the
reverse of the order of execution.

Either pass ends because a node that is behind its total catches up with it at most once.

**What it does not establish.** The counts are natural numbers and never overflow. They agree with
counts in words of 32 bits as long as there are fewer than `2 ^ 32` references, which is shown in
`Proofs/Order` (`Counting.count_le`, `Taking.count_le`); nothing is said here of graphs with more.
-/

namespace Staging

/-- How often each buffer was met. A count is a natural number here; it stays below the number of
references, so that a word is enough wherever they can be counted in one. -/
abbrev Tally := Std.ExtTreeMap BufferId Nat

namespace Tally

def count (t : Tally) (x : BufferId) : Nat := t[x]?.getD 0

/-- Meets a buffer once more, which is the first time if it has no count. -/
def bump (t : Tally) (x : BufferId) : Tally := t.insert x (t.count x + 1)

@[simp] theorem count_empty (x : BufferId) : (∅ : Tally).count x = 0 := by
  simp [count]

theorem count_of_some {t : Tally} {x : BufferId} {n : Nat} (h : t[x]? = some n) :
    t.count x = n := by
  simp [count, h]

theorem count_of_none {t : Tally} {x : BufferId} (h : t[x]? = none) : t.count x = 0 := by
  simp [count, h]

theorem count_bump (t : Tally) (x y : BufferId) :
    (t.bump x).count y = t.count y + if x = y then 1 else 0 := by
  simp only [bump, count, Std.ExtTreeMap.getElem?_insert, Std.LawfulEqCmp.compare_eq_iff_eq]
  split <;> simp_all

end Tally

namespace Graph

/-- The ids of the nodes. -/
def ids (g : Graph) : List BufferId := (List.range g.size).map BufferId.ofNat

theorem mem_ids {g : Graph} {x : BufferId} {n : Node} (h : g.node? x = some n) : x ∈ g.ids :=
  List.mem_map.mpr ⟨x.index, List.mem_range.mpr (index_lt_of_node? h), BufferId.ofNat_index x⟩

/-- How many nodes were met less often than a total says. It never grows and becomes smaller
whenever operands are put on the stack, which is why both passes end. -/
def behind (g : Graph) (t : Tally) (total : BufferId → Nat) : Nat :=
  g.ids.countP fun x => t.count x < total x

private theorem countP_bump_le (t : Tally) (total : BufferId → Nat) (x : BufferId)
    (l : List BufferId) :
    (l.countP fun y => (t.bump x).count y < total y) ≤ l.countP fun y => t.count y < total y := by
  refine List.countP_mono_left fun y _ h => ?_
  simp only [Tally.count_bump, decide_eq_true_eq] at h ⊢
  omega

/-- No node falls behind by being met. -/
theorem behind_bump_le (g : Graph) (t : Tally) (total : BufferId → Nat) (x : BufferId) :
    g.behind (t.bump x) total ≤ g.behind t total :=
  countP_bump_le t total x g.ids

/-- A node that catches up is behind no more. -/
theorem behind_bump_lt {g : Graph} {t : Tally} {total : BufferId → Nat} {x : BufferId}
    (hx : x ∈ g.ids) (h : t.count x + 1 = total x) :
    g.behind (t.bump x) total < g.behind t total := by
  obtain ⟨before, after, hids⟩ := List.append_of_mem hx
  have hbefore := countP_bump_le t total x before
  have hafter := countP_bump_le t total x after
  have hmet : ¬ (t.bump x).count x < total x := by rw [Tally.count_bump, if_pos rfl]; omega
  have hunmet : t.count x < total x := by omega
  simp only [behind, hids, List.countP_append, List.countP_cons, hmet, hunmet, decide_true,
    decide_false, if_true, Bool.false_eq_true, if_false]
  omega

/-- Counts the references on a stack and those of every node that is met for the first time. A node
that is met again adds no references, or a node with two users would have its operands counted
twice. -/
def countReferences (g : Graph) (stack : List BufferId) (counts : Tally) : Except Fault Tally :=
  match stack with
  | [] => .ok counts
  | x :: stack =>
    if counts.count x = 0 then
      match _h : g.node? x with
      | none => .error .outOfRange
      | some node => g.countReferences (node.operands.reverse ++ stack) (counts.bump x)
    else g.countReferences stack (counts.bump x)
termination_by (g.behind counts fun _ => 1, stack.length)
decreasing_by
  -- a node puts its operands on the stack when it is met first, and is behind no more
  · exact Prod.Lex.left _ _ (behind_bump_lt (mem_ids _h) (by omega))
  · exact Prod.Lex.right' _ (g.behind_bump_le counts _ x) (by simp)

/-- Takes the references off a stack, where `total` says how many there are to each node and `taken`
how many were taken before. `ready` holds the nodes without any left, the last one first. -/
def takeReferences (g : Graph) (total : Tally) (stack : List BufferId) (taken : Tally)
    (ready : List BufferId) : Except Fault (List BufferId) :=
  match stack with
  | [] => .ok ready
  | x :: stack =>
    match _hx : total[x]? with
    | none => .error .outOfRange
    | some n =>
      if taken.count x + 1 = n then
        match _h : g.node? x with
        | none => .error .outOfRange
        | some node =>
          g.takeReferences total (node.operands.reverse ++ stack) (taken.bump x) (x :: ready)
      else g.takeReferences total stack (taken.bump x) ready
termination_by (g.behind taken total.count, stack.length)
decreasing_by
  · exact Prod.Lex.left _ _ (behind_bump_lt (mem_ids _h) (by simp_all [Tally.count]))
  · exact Prod.Lex.right' _ (g.behind_bump_le taken _ x) (by simp)

/-- The nodes that the outputs need, each after its operands. Inputs and weights are among them.
Both passes begin with the same stack, so that the second can take what the first has counted. -/
def order (g : Graph) (outputs : List BufferId) : Except Fault (List BufferId) := do
  let total ← g.countReferences outputs.reverse ∅
  g.takeReferences total outputs.reverse ∅ []

/-- The step of a node that is computed. Inputs and weights have none, as there is nothing to
execute for them. -/
def step? (g : Graph) (x : BufferId) : Option Step :=
  match g.node? x with
  | some (.apply op operands shape) => some ⟨op, x, operands, shape⟩
  | _ => none

/-- The steps that compute the outputs, which must be nodes. -/
def schedule (g : Graph) (outputs : List BufferId) : Result GraphError Schedule := do
  let _ ← Result.ofExcept (outputs.mapM g.node)
  let order ← Result.ofFaulty (g.order outputs)
  return order.filterMap g.step?

end Graph

end Staging
