import Staging.Proofs.Shape

/-!
# How a computation may end

`Ends F P x` says that a computation ends with a value that satisfies `P` or with a failure that
satisfies `F`. It is shown of a sequence of computations part by part (`Ends.bind`), and of a fold
step by step (`Ends.foldlM`).

Arithmetic on sizes faults only where a number is too large. `Fault.Overflow big` is such a fault
under the condition that `big` holds. The lemmas on sizes ask for numbers below 2^31 or for `big`:
where `big` is false there is no fault at all, and where it is true nothing is asked of the numbers.
Where errors are possible too, `Failure.Refuses bad big` says what each kind of failure takes.
-/

namespace Staging

/-- The computation ends with a value that satisfies `P` or a failure that satisfies `F`. -/
def Ends {ε α : Type} (F : ε → Prop) (P : α → Prop) : Except ε α → Prop
  | .ok a => P a
  | .error e => F e

namespace Ends

variable {ε α β : Type} {F : ε → Prop} {P : α → Prop} {Q : β → Prop} {x : Except ε α}

theorem bind {f : α → Except ε β} (hx : Ends F P x) (hf : ∀ a, P a → Ends F Q (f a)) :
    Ends F Q (x >>= f) := by
  cases x with
  | error e => exact hx
  | ok a => exact hf a hx

theorem imp {P' : α → Prop} (hx : Ends F P x) (h : ∀ a, P a → P' a) : Ends F P' x := by
  cases x with
  | error e => exact hx
  | ok a => exact h a hx

theorem weaken {F' : ε → Prop} (hx : Ends F P x) (h : ∀ e, F e → F' e) : Ends F' P x := by
  cases x with
  | error e => exact h e hx
  | ok a => exact hx

theorem and_eq_ok (hx : Ends F P x) : Ends F (fun a => P a ∧ x = .ok a) x := by
  cases x with
  | error e => exact hx
  | ok a => exact ⟨hx, rfl⟩

/-- **A fold** keeps a property of what was folded so far that each step keeps. -/
theorem foldlM {I : List α → β → Prop} {f : β → α → Except ε β} {l : List α} {b : β}
    (hinit : I [] b) (hstep : ∀ done a rest b, l = done ++ a :: rest → I done b →
      Ends F (I (done ++ [a])) (f b a)) : Ends F (I l) (l.foldlM f b) := by
  suffices h : ∀ rest done b, l = done ++ rest → I done b →
      Ends F (I l) (rest.foldlM f b) from h l [] b rfl hinit
  intro rest
  induction rest with
  | nil =>
    rintro done b rfl hdone
    rwa [List.append_nil]
  | cons a rest ih =>
    intro done b hl hdone
    rw [List.foldlM_cons]
    refine (hstep done a rest b hl hdone).bind fun b' hb' => ih (done ++ [a]) b' ?_ hb'
    rw [hl, List.append_assoc, List.singleton_append]

/-- A computation that can only fault ends in the same way among those that might have errors. -/
theorem ofFaulty {F : Failure ε → Prop} {x : Except Fault α}
    (hx : Ends (fun f => F (.fault f)) P x) : Ends F P (Result.ofFaulty x) := by
  cases x with
  | error f => exact hx
  | ok a => exact hx

/-- The second part of an action is shown to end for every state that the first one may leave. -/
theorem run_bind {σ : Type} {F : Failure ε → Prop} {x : Action σ ε α} {f : α → Action σ ε β} {s : σ}
    (hx : Ends F P (x.run s).1) (hf : ∀ a s', P a → Ends F Q ((f a).run s').1) :
    Ends F Q ((x >>= f).run s).1 := by
  rcases h : x.run s with ⟨why | a, s'⟩ <;> rw [h] at hx
  · rw [Action.run_bind_error h]
    exact hx
  · rw [Action.run_bind_ok h]
    exact hf a s' hx

theorem exec {σ : Type} {F : Failure ε → Prop} {x : Action σ ε α} {s : σ}
    (hx : Ends F P (x.run s).1) : Ends F (fun _ => True) (x.exec s) := by
  unfold Action.exec
  rcases h : x.run s with ⟨why | a, s'⟩ <;> rw [h] at hx
  · exact hx
  · trivial

end Ends

/-- A number was too large, which takes that `big` holds. -/
def Fault.Overflow (big : Prop) (f : Fault) : Prop :=
  (f = .multiplyOverflow ∨ f = .capacityOverflow) ∧ big

/-- A number was too large, which takes that `big` holds; no error. -/
def Failure.Overflow {ε : Type} (big : Prop) : Failure ε → Prop
  | .error _ => False
  | .fault f => f.Overflow big

/-- An error, which takes that `bad` holds, or a number was too large, which takes that `big`
holds. -/
def Failure.Refuses {ε : Type} (bad big : Prop) : Failure ε → Prop
  | .error _ => bad
  | .fault f => f.Overflow big

variable {big : Prop}

theorem Fault.Overflow.imp {f : Fault} {big' : Prop} (h : f.Overflow big) (hbig : big → big') :
    f.Overflow big' :=
  ⟨h.1, hbig h.2⟩

theorem Failure.Refuses.imp {ε : Type} {why : Failure ε} {bad bad' big' : Prop}
    (h : why.Refuses bad big) (hbad : bad → bad') (hbig : big → big') : why.Refuses bad' big' := by
  cases why with
  | error e => exact hbad h
  | fault f => exact Fault.Overflow.imp h hbig

/-- The three ways to end, one by one. -/
theorem Ends.refuses {ε α : Type} {bad : Prop} {P : α → Prop} {x : Result ε α}
    (hfault : Ends (Failure.Refuses True big) (fun _ => True) x) (hok : ∀ a, x = .ok a → P a)
    (herror : ∀ e, x = .error (.error e) → bad) : Ends (Failure.Refuses bad big) P x := by
  cases x with
  | ok a => exact hok a rfl
  | error why =>
    cases why with
    | error e => exact herror e rfl
    | fault f => exact hfault

/-- A computation that can not fault ends in an error at worst. -/
theorem Result.ofExcept_ends {ε α : Type} (x : Except ε α) :
    Ends (Failure.Refuses True big) (fun _ => True) (Result.ofExcept x) := by
  cases x with
  | error e => trivial
  | ok a => trivial

theorem Failure.Overflow.map {ε δ : Type} {why : Failure ε} (h : why.Overflow big) (f : ε → δ) :
    (why.map f).Overflow big := by
  cases why with
  | error e => exact h.elim
  | fault f => exact h

namespace Size

theorem mul_ends {a b : Nat} (h : a * b < limit ∨ big) :
    Ends (Fault.Overflow big) (· = a * b) (mul a b) := by
  unfold mul
  split
  next => exact rfl
  next hlarge => exact ⟨.inl rfl, h.resolve_left hlarge⟩

theorem reserve_ends {n : Nat} (h : n < 1 <<< 60 ∨ big) :
    Ends (Fault.Overflow big) (fun _ => True) (reserve n) := by
  unfold reserve
  split
  next => trivial
  next hlarge => exact ⟨.inr rfl, h.resolve_left (by omega)⟩

end Size

theorem Shape.size_ends {s : Shape} (h : 0 ∉ s ∧ s.count < 1 <<< 60 ∨ big) :
    Ends (Fault.Overflow big) (· = s.count) s.size := by
  rcases h with ⟨hs, hlt⟩ | hbig
  · rw [size_of_nonzero hs (Nat.lt_trans hlt (by decide))]
    exact rfl
  · cases hsize : s.size with
    | ok n => exact count_of_size hsize
    | error f => exact ⟨.inl (size_eq_error hsize), hbig⟩

end Staging
