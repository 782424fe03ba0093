/-
# Timestamps

A timestamp pairs a wall-clock time with a counter and the node that issued it. Timestamps are totally
ordered: by the time, then by the counter, then by the node's id in the order of code points.
-/

namespace DocMesh

/-- A moment of the hybrid logical clock of one node. -/
structure Timestamp where
  /-- Milliseconds since the Unix epoch. -/
  physical : Int64
  /-- Tells apart the moments within one millisecond. -/
  counter : Int32
  /-- The node that issued the timestamp. -/
  node : String
  deriving DecidableEq, Inhabited

namespace Timestamp

/-! ## Order -/

instance : Ord Timestamp :=
  ⟨compareLex (compareOn physical) (compareLex (compareOn counter) (compareOn node))⟩

instance : Std.TransOrd Timestamp :=
  inferInstanceAs (Std.TransCmp (compareLex (compareOn physical)
    (compareLex (compareOn counter) (compareOn node))))

theorem compare_def (a b : Timestamp) :
    compare a b = (compare a.physical b.physical).then
      ((compare a.counter b.counter).then (compare a.node b.node)) := rfl

instance : Std.LawfulEqOrd Timestamp where
  compare_self {a} := by simp
  eq_of_compare {a b} h := by
    rw [compare_def, Ordering.then_eq_eq, Ordering.then_eq_eq] at h
    obtain ⟨h₁, h₂, h₃⟩ := h
    cases a; cases b
    simp_all

instance : LT Timestamp := ltOfOrd

instance : LE Timestamp := leOfOrd

instance : DecidableLT Timestamp := inferInstanceAs (DecidableRel fun a b : Timestamp => compare a b = .lt)

instance : DecidableLE Timestamp := inferInstanceAs (DecidableRel fun a b : Timestamp => (compare a b).isLE)

instance : Max Timestamp := maxOfLe

/-! ## The start of time -/

/-- The timestamp of an empty log. -/
def zero : Timestamp := ⟨0, 0, ""⟩

/-- Is this the timestamp of an empty log? -/
def isZero (t : Timestamp) : Bool := t == zero

/-! ## Text -/

/-- The time, the counter and the node, divided by colons. -/
def text (t : Timestamp) : String :=
  toString t.physical.toInt ++ ":" ++ toString t.counter.toInt ++ ":" ++ t.node

instance : ToString Timestamp := ⟨text⟩

end Timestamp

end DocMesh
