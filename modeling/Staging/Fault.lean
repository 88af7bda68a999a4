/-!
# Faults and failures

Sizes are 64-bit words. A product of sizes that does not fit, a request for more storage than can be
addressed, an index outside its array, and a length of zero where something is divided by it are
*faults*: they end the computation whatever it was for. An *error* is a cause that the caller can
name and handle. `Result ε α` keeps the two apart, so that a statement about errors can leave faults
out, and the other way round.

Objects that change are told so by an `Action σ ε α`, which leaves a state behind whether it fails
or not. That a call which fails changes nothing is therefore never a matter of types, but has to be
shown of each call.

**What it does not establish.** A product that does not fit is a fault because arithmetic is
checked. Nothing here speaks of arithmetic that wraps around instead, nor of storage that runs out
below the limit. After a fault nothing can look at the state any more; what stands there is what the
checked arithmetic would leave.
-/

namespace Staging

/-- A reason for which a computation on sizes or indices can not go on. There is one for each check
that arithmetic and arrays make on their own; no caller asks for them. -/
inductive Fault where
  /-- A product of sizes needs more than 64 bits. -/
  | multiplyOverflow
  /-- More bytes are asked for than a signed 64-bit word can count. -/
  | capacityOverflow
  /-- An index lies outside the array it reads. -/
  | outOfRange
  /-- A remainder by a length of zero. -/
  | zeroDivisor
  /-- An array is cut into rows of length zero. -/
  | zeroWidth
deriving DecidableEq, Repr

def Fault.message : Fault → String
  | .multiplyOverflow => "attempt to multiply with overflow"
  | .capacityOverflow => "capacity overflow"
  | .outOfRange => "index out of bounds"
  | .zeroDivisor => "attempt to calculate the remainder with a divisor of zero"
  | .zeroWidth => "chunk size must be non-zero"

/-- What ends a computation early: an error of its own kind, which its caller may handle, or a
fault, which nobody does. -/
inductive Failure (ε : Type) where
  | error (cause : ε)
  | fault (cause : Fault)
deriving DecidableEq, Repr

/-- The same failure with its error seen as one of another kind. -/
def Failure.map {ε δ : Type} (f : ε → δ) : Failure ε → Failure δ
  | .error e => .error (f e)
  | .fault e => .fault e

/-- The value of a computation, or the failure that ended it. -/
abbrev Result (ε α : Type) := Except (Failure ε) α

namespace Result

variable {ε δ α : Type}

def fail (e : ε) : Result ε α := .error (.error e)

/-- A computation that can only fault, as one that might also have errors. -/
def ofFaulty : Except Fault α → Result ε α
  | .ok a => .ok a
  | .error f => .error (.fault f)

/-- A computation that can not fault, as one that might. -/
def ofExcept : Except ε α → Result ε α
  | .ok a => .ok a
  | .error e => .error (.error e)

/-- Changes the kind of error and nothing else. -/
def mapError (f : ε → δ) : Result ε α → Result δ α
  | .ok a => .ok a
  | .error e => .error (e.map f)

theorem ofFaulty_eq_ok {x : Except Fault α} {a : α} :
    (ofFaulty x : Result ε α) = .ok a ↔ x = .ok a := by
  cases x <;> simp [ofFaulty]

theorem mapError_eq_ok {f : ε → δ} {x : Result ε α} {a : α} :
    mapError f x = .ok a ↔ x = .ok a := by
  cases x <;> simp [mapError]

theorem ofExcept_eq_ok {x : Except ε α} {a : α} : ofExcept x = .ok a ↔ x = .ok a := by
  cases x <;> simp [ofExcept]

end Result

/-- A computation in two parts succeeds when both parts do. -/
theorem bind_eq_ok {ε α β : Type} {x : Except ε α} {f : α → Except ε β} {b : β} :
    x >>= f = .ok b ↔ ∃ a, x = .ok a ∧ f a = .ok b := by
  cases x <;> simp [bind, Except.bind]

theorem map_eq_ok {ε α β : Type} {x : Except ε α} {f : α → β} {b : β} :
    x.map f = .ok b ↔ ∃ a, x = .ok a ∧ f a = b := by
  cases x <;> simp [Except.map]

theorem toOption_eq_some {ε α : Type} {x : Except ε α} {a : α} :
    x.toOption = some a ↔ x = .ok a := by
  cases x <;> simp [Except.toOption]

/-- A computation that changes a state. The state after it is there in either case, as it is for a
caller who goes on with the same object after an error. -/
abbrev Action (σ ε : Type) := ExceptT (Failure ε) (StateM σ)

namespace Action

variable {σ ε α β : Type} {x : Action σ ε α} {s s' : σ}

/-- The result of an action on a state, and the state after it. -/
def run (x : Action σ ε α) (s : σ) : Result ε α × σ := StateT.run (ExceptT.run x) s

/-- A computation that knows no state, as an action that leaves the state alone. -/
def ofResult (r : Result ε α) : Action σ ε α := ExceptT.mk (pure r)

def fail (e : ε) : Action σ ε α := ofResult (.fail e)

/-- The state after an action for which there is no use if it fails. -/
def exec (x : Action σ ε α) (s : σ) : Result ε σ :=
  match x.run s with
  | (.ok _, s') => .ok s'
  | (.error why, _) => .error why

@[simp] theorem run_ofResult (r : Result ε α) (s : σ) :
    (ofResult r : Action σ ε α).run s = (r, s) := rfl

theorem run_ofFaulty_ok (a : α) (s : σ) :
    (ofResult (.ofFaulty (.ok a)) : Action σ ε α).run s = (.ok a, s) := rfl

@[simp] theorem run_get (s : σ) : (get : Action σ ε σ).run s = (.ok s, s) := rfl

@[simp] theorem run_modify (f : σ → σ) (s : σ) :
    (modify f : Action σ ε Unit).run s = (.ok (), f s) := rfl

/-- The second part of an action begins in the state that the first one left, if that one
succeeds. -/
theorem run_bind (x : Action σ ε α) (f : α → Action σ ε β) (s : σ) :
    (x >>= f).run s =
      match x.run s with
      | (.ok a, s') => (f a).run s'
      | (.error why, s') => (.error why, s') := by
  have hparts : (x >>= f).run s = (ExceptT.bindCont f (x.run s).1).run (x.run s).2 := rfl
  rw [hparts]
  rcases x.run s with ⟨_ | _, s'⟩ <;> rfl

theorem run_bind_ok {a : α} (h : x.run s = (.ok a, s')) (f : α → Action σ ε β) :
    (x >>= f).run s = (f a).run s' := by
  rw [run_bind, h]

theorem run_bind_error {why : Failure ε} (h : x.run s = (.error why, s')) (f : α → Action σ ε β) :
    (x >>= f).run s = (.error why, s') := by
  rw [run_bind, h]

theorem exec_eq_ok : x.exec s = .ok s' ↔ ∃ a, x.run s = (.ok a, s') := by
  unfold exec
  rcases x.run s with ⟨_ | a, s₁⟩ <;> simp

end Action

namespace Size

/-- One more than the largest size. -/
def limit : Nat := UInt64.size

/-- The product of two sizes, if it is a size. -/
def mul (a b : Nat) : Except Fault Nat :=
  if a * b < limit then .ok (a * b) else .error .multiplyOverflow

/-- The remainder by a length, which must not be zero. -/
def rem (a b : Nat) : Except Fault Nat := if b = 0 then .error .zeroDivisor else .ok (a % b)

/-- Makes sure that `n` values of four bytes each can be addressed. -/
def reserve (n : Nat) : Except Fault Unit :=
  if n * 4 < 1 <<< 63 then .ok () else .error .capacityOverflow

theorem mul_eq_ok {a b n : Nat} : mul a b = .ok n ↔ n = a * b ∧ a * b < limit := by
  unfold mul
  split <;> simp_all [eq_comm]

theorem mul_cases (a b : Nat) :
    (a * b < limit ∧ mul a b = .ok (a * b)) ∨
      (limit ≤ a * b ∧ mul a b = .error .multiplyOverflow) := by
  unfold mul
  split <;> simp_all

theorem reserve_eq_ok {n : Nat} : reserve n = .ok () ↔ n * 4 < 1 <<< 63 := by
  unfold reserve
  split <;> simp_all

theorem rem_of_pos {a b : Nat} (h : 0 < b) : rem a b = .ok (a % b) := if_neg (Nat.ne_of_gt h)

theorem eq_mod_of_rem {a b n : Nat} (h : rem a b = .ok n) : n = a % b := by
  unfold rem at h
  split at h
  next => cases h
  next =>
    cases h
    rfl

end Size

end Staging
