/-!
# Ranges of code points

A `CodeRange` is an inclusive range of code points. Character classes are given as lists of
ranges: a character is in the class when some range contains its code point.
-/

namespace ProtocolGraph.Text

/-- The code points from `first` to `last`, both included. -/
structure CodeRange where
  /-- The least code point. -/
  first : Nat
  /-- The greatest code point. -/
  last : Nat
deriving DecidableEq

namespace CodeRange

/-- The code point lies in the range. -/
def contains (r : CodeRange) (n : Nat) : Bool :=
  decide (r.first ≤ n) && decide (n ≤ r.last)

/-- The part of the range that lies in the window from `lo` to `hi`, if there is any. -/
def clip (lo hi : Nat) (r : CodeRange) : Option CodeRange :=
  if max lo r.first ≤ min hi r.last then some ⟨max lo r.first, min hi r.last⟩ else none

@[simp] theorem contains_iff {r : CodeRange} {n : Nat} :
    r.contains n = true ↔ r.first ≤ n ∧ n ≤ r.last := by
  simp [contains]

/-- Clipping keeps the code points of the window and no others. -/
theorem contains_of_clip {r s : CodeRange} {lo hi n : Nat} (h : r.clip lo hi = some s) :
    s.contains n = true ↔ r.contains n = true ∧ lo ≤ n ∧ n ≤ hi := by
  unfold clip at h
  split at h
  · cases h
    simp only [contains_iff]
    omega
  · cases h

end CodeRange

end ProtocolGraph.Text
