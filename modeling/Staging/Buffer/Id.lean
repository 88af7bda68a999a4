import Std.Data.ExtTreeSet

/-!
# Buffer ids

A buffer is named by a 32-bit id, which is the position of its node in the graph it belongs to.
Sets of ids are finite sets with extensional equality; their members are listed in ascending order.
-/

namespace Staging

structure BufferId where
  val : UInt32
deriving DecidableEq, Repr, Inhabited

namespace BufferId

/-- The id of position `i`, which is taken modulo 2^32. Ids name nodes without ambiguity as long as
there are at most that many, and statements which need it say so. -/
def ofNat (i : Nat) : BufferId := ⟨UInt32.ofNat i⟩

/-- The position that an id stands for, which may lie beyond the nodes of a graph. -/
def index (x : BufferId) : Nat := x.val.toNat

/-- The written form of an id: `b0`, `b1`, … -/
def render (x : BufferId) : String := "b" ++ toString x.index

instance : Ord BufferId := ⟨compareOn BufferId.val⟩

instance : Std.TransOrd BufferId :=
  inferInstanceAs (Std.TransCmp (compareOn BufferId.val))

instance : Std.LawfulEqOrd BufferId where
  eq_of_compare {a b} h := by
    have h' : compare a.val b.val = .eq := h
    cases a
    cases b
    exact congrArg BufferId.mk (Std.LawfulEqOrd.eq_of_compare h')

@[ext] theorem ext_index {x y : BufferId} (h : x.index = y.index) : x = y := by
  cases x
  cases y
  exact congrArg BufferId.mk (UInt32.toNat_inj.mp h)

theorem index_lt (x : BufferId) : x.index < UInt32.size := x.val.toNat_lt_size

theorem index_ofNat {i : Nat} (h : i < UInt32.size) : (ofNat i).index = i :=
  UInt32.toNat_ofNat_of_lt' h

@[simp] theorem ofNat_index (x : BufferId) : ofNat x.index = x := by
  cases x
  simp [ofNat, index]

end BufferId

abbrev IdSet := Std.ExtTreeSet BufferId

namespace IdSet

def ofList (xs : List BufferId) : IdSet := Std.ExtTreeSet.ofList xs

/-- The members in ascending order, separated by commas. -/
def render (s : IdSet) : String := ", ".intercalate (s.toList.map BufferId.render)

theorem mem_insert {s : IdSet} {x y : BufferId} : y ∈ s.insert x ↔ y = x ∨ y ∈ s := by
  rw [Std.ExtTreeSet.mem_insert, Std.LawfulEqCmp.compare_eq_iff_eq, eq_comm]

theorem mem_ofList {xs : List BufferId} {x : BufferId} : x ∈ ofList xs ↔ x ∈ xs := by
  simp [ofList]

end IdSet

end Staging
