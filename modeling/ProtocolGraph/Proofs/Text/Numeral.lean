import ProtocolGraph.Text.Numeral

/-!
# Numerals and their values

`Numeral cs n` is the grammar of signed decimal numerals with its meaning: the characters are a
numeral, however long, and `n` is its exact value.

* `signed?_eq_some_iff`: `signed?` reads the numerals and nothing else.
* **`int64?_eq_some_iff_numeral`**: `int64?` reads those whose value fits 64 bits.
-/

namespace ProtocolGraph.Text

/-- The characters are decimal digits, and at least one. -/
def Digits (cs : List Char) : Prop :=
  cs ≠ [] ∧ ∀ c ∈ cs, c.isDigit = true

/-- The characters are digits after an optional sign, and this is their value. -/
inductive Numeral : List Char → Int → Prop
  | plain {cs} (digits : Digits cs) : Numeral cs (Nat.ofDigitChars 10 cs 0)
  | plus {cs} (digits : Digits cs) : Numeral ('+' :: cs) (Nat.ofDigitChars 10 cs 0)
  | minus {cs} (digits : Digits cs) : Numeral ('-' :: cs) (-Nat.ofDigitChars 10 cs 0)

variable {cs : List Char}

theorem unsigned?_of_digits (digits : Digits cs) :
    unsigned? cs = some (Nat.ofDigitChars 10 cs 0) :=
  if_pos ⟨digits.1, List.all_eq_true.mpr digits.2⟩

/-- What is read after a sign are digits, and `f` makes the sign count. -/
theorem digits_of_map_eq_some {f : Int → Int} {n : Int}
    (h : (unsigned? cs >>= fun value => pure (value : Int)).map f = some n) :
    Digits cs ∧ f (Nat.ofDigitChars 10 cs 0) = n := by
  unfold unsigned? at h
  split at h
  · rename_i digits
    exact ⟨⟨digits.1, List.all_eq_true.mp digits.2⟩, Option.some.inj h⟩
  · cases h

theorem Numeral.signed?_eq {n : Int} (h : Numeral cs n) : signed? cs = some n := by
  cases h with
  | plain digits =>
    rw [signed?_of_isDigit digits.2, unsigned?_of_digits digits]
    rfl
  | plus digits | minus digits =>
    rw [signed?, unsigned?_of_digits digits]
    rfl

/-- **The numerals are read**, each with its value, and nothing else is. -/
theorem signed?_eq_some_iff {n : Int} : signed? cs = some n ↔ Numeral cs n := by
  refine ⟨fun h => ?_, Numeral.signed?_eq⟩
  unfold signed? at h
  split at h <;> obtain ⟨digits, rfl⟩ := digits_of_map_eq_some h
  · exact .minus digits
  · exact .plus digits
  · exact .plain digits

/-- **The numerals that fit 64 bits are read**, each with its value. -/
theorem int64?_eq_some_iff_numeral {n : Int64} : int64? cs = some n ↔ Numeral cs n.toInt :=
  int64?_eq_some_iff.trans signed?_eq_some_iff

theorem int64?_eq_none_iff : int64? cs = none ↔ ∀ n : Int64, ¬Numeral cs n.toInt := by
  simp only [Option.eq_none_iff_forall_ne_some, ne_eq, int64?_eq_some_iff_numeral]

end ProtocolGraph.Text
