import Staging.Fault
import Staging.Scalar

/-!
# Random numbers

A generator of 64-bit words with four words of state (xoshiro256++), started from a seed by eight
half words of a permuted congruential sequence (PCG32). A uniform draw takes one word and keeps its
upper 24 bits as a fraction. Two uniform draws make two independent values of the normal
distribution, a cosine and a sine member.
-/

namespace Staging

structure Generator where
  a : UInt64
  b : UInt64
  c : UInt64
  d : UInt64
deriving DecidableEq, Repr, Inhabited

namespace Generator

/-- The state that follows a state of the seeding sequence. -/
def seedNext (state : UInt64) : UInt64 := state * 6364136223846793005 + 11634580027462260723

/-- The half word that the seeding sequence gives for a state: the upper bits are folded down, then
turned to the right by the topmost five. -/
def seedHalf (state : UInt64) : UInt32 :=
  let folded := (((state >>> 18) ^^^ state) >>> 27).toUInt32
  let turn := (state >>> 59).toUInt32
  (folded >>> turn) ||| (folded <<< (32 - turn))

/-- Two half words of the seeding sequence as one word, the first of them its lower half, and the
state after them. -/
def seedWord (state : UInt64) : UInt64 × UInt64 :=
  let low := seedNext state
  let high := seedNext low
  ((seedHalf low).toUInt64 ||| ((seedHalf high).toUInt64 <<< 32), high)

def ofSeed (seed : UInt64) : Generator :=
  let (a, s) := seedWord seed
  let (b, s) := seedWord s
  let (c, s) := seedWord s
  let (d, _) := seedWord s
  ⟨a, b, c, d⟩

/-- Turns a word to the left by `n` bits. -/
def rotate (x : UInt64) (n : UInt64) : UInt64 := (x <<< n) ||| (x >>> (64 - n))

def next (g : Generator) : UInt64 × Generator :=
  let word := rotate (g.a + g.d) 23 + g.a
  let c := g.c ^^^ g.a
  let d := g.d ^^^ g.b
  (word, ⟨g.a ^^^ d, g.b ^^^ c, c ^^^ (g.b <<< 17), rotate d 45⟩)

/-- A value from zero on and below one. The upper bits of a word are its best ones, and 24 of them
are as many as a fraction holds exactly. -/
def draw (g : Generator) : Scalar × Generator :=
  let (word, g) := g.next
  ((word >>> 40).toFloat32 * Float32.ofBits 0x33800000, g)

def draws : Nat → Generator → List Scalar × Generator
  | 0, g => ([], g)
  | n + 1, g =>
    let (x, g) := g.draw
    let (xs, g) := draws n g
    (x :: xs, g)

theorem length_draws (n : Nat) (g : Generator) : (g.draws n).1.length = n := by
  induction n generalizing g with
  | zero => rfl
  | succ n ih => exact congrArg (· + 1) (ih g.draw.2)

/-! ## Normally distributed values -/

/-- The smallest positive value that is not subnormal. A draw of zero is raised to it before its
logarithm is taken, which would not be finite. -/
def leastNormal : Scalar := Float32.ofBits 0x00800000

/-- A full turn, the angle that a draw below one is a part of. It is twice the value nearest to the
half turn, which is exact, and not a constant of its own. -/
def turn : Scalar := 2 * Float32.ofBits 0x40490fdb

/-- The cosine and the sine member made from two draws: the first draw gives their common radius,
the second the angle. -/
def normalPair (std u v : Scalar) : Scalar × Scalar :=
  let r := Float32.sqrt (-2 * Scalar.ln (Scalar.max u leastNormal))
  let angle := turn * v
  (r * Scalar.cos angle * std, r * Scalar.sin angle * std)

/-- A sequence of values with mean zero and a given standard deviation. One of odd length leaves the
last sine member out, but still takes both draws, so that it is the start of every longer one. -/
def normals (std : Scalar) : Nat → Generator → List Scalar × Generator
  | 0, g => ([], g)
  | n + 1, g =>
    let (u, g) := g.draw
    let (v, g) := g.draw
    let (x, y) := normalPair std u v
    match n with
    | 0 => ([x], g)
    | n + 1 =>
      let (rest, g) := normals std n g
      (x :: y :: rest, g)

/-- An array of such values. The room for all of them is asked for before the first draw. -/
def sample (std : Scalar) (n : Nat) (g : Generator) : Except Fault (Array Scalar × Generator) := do
  Size.reserve n
  let (values, g) := g.normals std n
  return (values.toArray, g)

end Generator

end Staging
