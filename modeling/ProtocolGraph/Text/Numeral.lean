/-!
# Signed decimal numerals

A numeral is an optional sign, `+` or `-`, and one or more ASCII digits; leading zeros are allowed.
`signed?` reads its exact value, however long it is. `int64?` accepts it only when the value fits
64 bits with a sign (`fit64?`), so that a longer numeral is no number at all and never a wrapped
one.

* `fit64?_eq_some_iff`: an integer that fits is the value of its 64-bit form.
* `int64?_eq_some_iff`: what `int64?` answers, in terms of the exact value.
* `int64?_decimal`: the decimal text of every 64-bit number reads back.
-/

namespace ProtocolGraph.Text

/-- The value of a nonempty list of ASCII digits. -/
def unsigned? (cs : List Char) : Option Nat :=
  if cs ≠ [] ∧ cs.all Char.isDigit then some (Nat.ofDigitChars 10 cs 0) else none

/-- The value of digits after an optional sign. -/
def signed? : List Char → Option Int
  | '-' :: cs => (unsigned? cs).map fun n => -(n : Int)
  | '+' :: cs => (unsigned? cs).map fun n => (n : Int)
  | cs => (unsigned? cs).map fun n => (n : Int)

/-- The 64-bit form of an integer that fits 64 bits with a sign. -/
def fit64? (n : Int) : Option Int64 :=
  if Int64.minValue.toInt ≤ n ∧ n ≤ Int64.maxValue.toInt then some (Int64.ofInt n) else none

/-- The value of a numeral that fits 64 bits with a sign. -/
def int64? (cs : List Char) : Option Int64 :=
  (signed? cs).bind fit64?

/-- The decimal text of a number: a minus sign if it is negative, and no leading zero. -/
def decimal : Int → List Char
  | .ofNat n => Nat.toDigits 10 n
  | .negSucc n => '-' :: Nat.toDigits 10 (n + 1)

/-! ## Lemmas -/

theorem fit64?_eq_some_iff {m : Int} {n : Int64} : fit64? m = some n ↔ m = n.toInt := by
  unfold fit64?
  constructor
  · intro h
    split at h
    · rename_i hb
      cases h
      exact (Int64.toInt_ofInt_of_le hb.1 (Int.lt_add_one_of_le hb.2)).symm
    · cases h
  · rintro rfl
    rw [if_pos ⟨n.le_toInt, Int.le_of_lt_add_one n.toInt_lt⟩, Int64.ofInt_toInt]

theorem int64?_eq_some_iff {cs : List Char} {n : Int64} :
    int64? cs = some n ↔ signed? cs = some n.toInt := by
  unfold int64?
  constructor
  · intro h
    obtain ⟨m, hm, h⟩ := Option.bind_eq_some_iff.mp h
    rw [hm, fit64?_eq_some_iff.mp h]
  · intro h
    rw [h, Option.bind_some, fit64?_eq_some_iff]

theorem unsigned?_toDigits (n : Nat) : unsigned? (Nat.toDigits 10 n) = some n := by
  have digits : (Nat.toDigits 10 n).all Char.isDigit = true :=
    List.all_eq_true.mpr fun c hc => Nat.isDigit_of_mem_toDigits (by decide) (by decide) hc
  rw [unsigned?, if_pos ⟨Nat.toDigits_ne_nil, digits⟩,
    Nat.ofDigitChars_toDigits (by decide) (by decide)]

/-- Digits without a sign are read as they are: neither sign is a digit. -/
theorem signed?_of_isDigit {cs : List Char} (h : ∀ c ∈ cs, c.isDigit = true) :
    signed? cs = (unsigned? cs).map fun n => (n : Int) := by
  unfold signed?
  split
  · exact absurd (h '-' List.mem_cons_self) (by decide)
  · exact absurd (h '+' List.mem_cons_self) (by decide)
  · rfl

theorem signed?_decimal (n : Int) : signed? (decimal n) = some n := by
  cases n with
  | ofNat n =>
    rw [decimal, signed?_of_isDigit fun c hc =>
      Nat.isDigit_of_mem_toDigits (by decide) (by decide) hc, unsigned?_toDigits]
    rfl
  | negSucc n =>
    simp only [decimal, signed?, unsigned?_toDigits]
    rfl

theorem int64?_decimal (n : Int64) : int64? (decimal n.toInt) = some n :=
  int64?_eq_some_iff.mpr (signed?_decimal n.toInt)

end ProtocolGraph.Text
