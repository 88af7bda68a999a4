import Staging.Decimal.Layout

/-!
# Counters

What the execution of steps has cost so far: how many there were, how many arithmetic operations
they did, how many bytes they touched and how many nanoseconds they took. All additions are modulo
2^64.

**What it does not establish.** No clock is read here. The times are numbers that an engine hands
over, and those of the reference machine are all zero.
-/

namespace Staging

/-- The cost of one step. An engine without a clock leaves the time at zero, so that its costs are a
matter of the steps alone and two runs of them can be compared. -/
structure Cost where
  ops : UInt64
  mem : UInt64
  time : UInt64 := 0
deriving DecidableEq, Repr

/-- The costs of several steps. They are counted in words that wrap around: a counter that is full
is no reason to end a run. -/
structure Counters where
  kernels : UInt64 := 0
  ops : UInt64 := 0
  mem : UInt64 := 0
  time : UInt64 := 0
deriving DecidableEq, Repr, Inhabited

namespace Counters

def zero : Counters := {}

/-- Counts a step that was executed. A step that fails is not recorded, not even as a kernel, so
that the counters always belong to a first part of the schedule. -/
def record (c : Counters) (cost : Cost) : Counters :=
  ⟨c.kernels + 1, c.ops + cost.ops, c.mem + cost.mem, c.time + cost.time⟩

/-- The part of the summary that does not depend on time. It is the same for every run of the same
steps on buffers of the same sizes. -/
def work (c : Counters) : String :=
  toString c.kernels.toNat ++ " kernels, " ++ toString c.ops.toNat ++ " ops, " ++
    toString c.mem.toNat ++ " B"

/-- The summary with the time in milliseconds and the operations per nanosecond. Where no time was
measured there is no rate either, rather than a division by zero. -/
def render (c : Counters) : String :=
  let ms := c.time.toFloat / 1e6
  let rate := if 0 < c.time then c.ops.toFloat / c.time.toFloat else 0
  c.work ++ ", " ++ Decimal.fixed 3 ms ++ " ms, " ++ Decimal.fixed 2 rate ++ " GFLOPS"

/-- The summary of work whose time was not measured; a low line stands for each missing number. -/
def renderUntimed (c : Counters) : String := c.work ++ ", _ ms, _ GFLOPS"

end Counters

end Staging
