import Std.Data.ExtTreeMap
import Staging.Buffer.Id
import Staging.Scalar
import Staging.Shape

/-!
# Stored buffers

A buffer is a shape and the values of an array of that shape in row-major order. A store holds at
most one buffer for each id; two stores are equal when they hold the same buffers.
-/

namespace Staging

/-- A shape and values. That they fit together is not part of the type: an engine may be handed a
buffer for which it is not so, and has to refuse it. -/
structure Buffer where
  shape : Shape
  data : Array Scalar
deriving DecidableEq, Repr

/-- As many values as the shape counts. This is what a machine checks of every buffer before it
holds it. -/
def Buffer.Consistent (b : Buffer) : Prop := b.data.size = b.shape.count

/-- The buffers that are held, by id. Equality of stores is extensional, so that two machines can be
said to hold the same without a word on how they came to it. -/
abbrev Store := Std.ExtTreeMap BufferId Buffer

namespace Store

def read (s : Store) (x : BufferId) : Option Buffer := s[x]?

private theorem compare_eq_iff {x y : BufferId} : compare x y = .eq ↔ y = x := by
  rw [Std.LawfulEqCmp.compare_eq_iff_eq, eq_comm]

@[simp] theorem read_empty (x : BufferId) : (∅ : Store).read x = none := by
  simp [read]

@[simp] theorem read_insert (s : Store) (x y : BufferId) (b : Buffer) :
    read (s.insert x b) y = if y = x then some b else read s y := by
  simp only [read, Std.ExtTreeMap.getElem?_insert, compare_eq_iff]

@[simp] theorem read_erase (s : Store) (x y : BufferId) :
    read (s.erase x) y = if y = x then none else read s y := by
  simp only [read, Std.ExtTreeMap.getElem?_erase, compare_eq_iff]

theorem ext_read {s t : Store} (h : ∀ x, s.read x = t.read x) : s = t :=
  Std.ExtTreeMap.ext_getElem? h

end Store

end Staging
