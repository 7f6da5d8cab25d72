import Mathlib.Data.List.Induction
import Mathlib.Data.Nat.Digits.Defs
import ProtocolGraph.Proofs.Model.Rendering

/-!
# What words denote

A word denotes an integer if it is a numeral whose exact value fits 64 bits with a sign. Every other
word is kept as it is, and denotes a keyword or a symbol. The value of a numeral is the positional
one, so that leading zeros do not count, and no numeral is too long to have one.

* `Text.positional`: the value of digits, by their places.
* `Text.numeral_iff`: a numeral is a sign, or none, and digits, and has their value with this sign.
* `Text.exists_int64_iff`: the integers that have a 64-bit form.
* **`Node.word_exact`**: what a word denotes, wherever it stands.
-/

namespace ProtocolGraph

namespace Text

/-! ## Numerals by their places -/

/-- The value of decimal digits: the last one counts once, the one before it ten times, and so on.
-/
def positional (digits : List Char) : Nat :=
  Nat.ofDigits 10 (digits.reverse.map fun c => c.toNat - '0'.toNat)

/-- A sign in front of digits, which may be left out, and how many times their value counts then. -/
inductive Sign : List Char → Int → Prop
  | none : Sign [] 1
  | plus : Sign ['+'] 1
  | minus : Sign ['-'] (-1)

/-- Reading digits from the left gives each the weight of its place. -/
theorem ofDigitChars_eq_positional (digits : List Char) :
    Nat.ofDigitChars 10 digits 0 = positional digits := by
  unfold positional
  induction digits using List.reverseRecOn with
  | nil => rfl
  | append_singleton digits c ih =>
    rw [Nat.ofDigitChars_append, ih, Nat.ofDigitChars_cons, Nat.ofDigitChars_nil,
      List.reverse_append, List.reverse_singleton, List.singleton_append, List.map_cons,
      Nat.ofDigits_cons, Nat.add_comm]

/-- **A numeral** is a sign, or none, and digits, and has their value with this sign. -/
theorem numeral_iff {cs : List Char} {n : Int} : Numeral cs n ↔
    ∃ sign times digits, Sign sign times ∧ Digits digits ∧ cs = sign ++ digits ∧
      n = times * positional digits := by
  constructor
  · intro h
    cases h with
    | plain digits =>
      exact ⟨[], 1, _, .none, digits, rfl, by rw [ofDigitChars_eq_positional, Int.one_mul]⟩
    | plus digits =>
      exact ⟨['+'], 1, _, .plus, digits, rfl, by rw [ofDigitChars_eq_positional, Int.one_mul]⟩
    | minus digits =>
      exact ⟨['-'], -1, _, .minus, digits, rfl, by
        rw [ofDigitChars_eq_positional, Int.neg_one_mul]⟩
  · rintro ⟨sign, times, digits, signed, isDigits, rfl, rfl⟩
    rw [← ofDigitChars_eq_positional]
    cases signed with
    | none =>
      rw [Int.one_mul]
      exact .plain isDigits
    | plus =>
      rw [Int.one_mul]
      exact .plus isDigits
    | minus =>
      rw [Int.neg_one_mul]
      exact .minus isDigits

/-- **The integers that fit 64 bits** with a sign. -/
theorem exists_int64_iff {m : Int} :
    (∃ n : Int64, n.toInt = m) ↔ -2 ^ 63 ≤ m ∧ m ≤ 2 ^ 63 - 1 := by
  constructor
  · rintro ⟨n, rfl⟩
    exact ⟨n.le_toInt, Int.le_sub_one_of_lt n.toInt_lt⟩
  · rintro ⟨least, most⟩
    exact ⟨Int64.ofInt m, Int64.toInt_ofInt_of_le least (Int.lt_of_le_sub_one most)⟩

end Text

namespace Node

variable {word name : String} {n : Int64}

/-! ## Words -/

theorem ofWord_eq_int_iff : ofWord word = .int n ↔ Text.Numeral word.toList n.toInt := by
  refine ⟨fun h => ?_, ofWord_eq_int⟩
  have leaf : Leaf ⟨.word, 0, word⟩ (ofWord word) := leaf_ofWord rfl
  rw [h] at leaf
  cases leaf with
  | int _ numeral => exact numeral

theorem ofWord_eq_keyword_iff : ofWord word = .keyword name ↔
    name = word ∧ (∀ n, ofWord word ≠ .int n) ∧ word.toList.head? = some ':' := by
  constructor
  · intro h
    have leaf : Leaf ⟨.word, 0, word⟩ (ofWord word) := leaf_ofWord rfl
    rw [h] at leaf ⊢
    cases leaf with
    | keyword _ other colon => exact ⟨rfl, nofun, colon⟩
  · rintro ⟨rfl, other, colon⟩
    rw [ofWord_of_other fun n numeral => other n (ofWord_eq_int numeral), if_pos colon]

theorem ofWord_eq_symbol_iff : ofWord word = .symbol name ↔
    name = word ∧ (∀ n, ofWord word ≠ .int n) ∧ word.toList.head? ≠ some ':' := by
  constructor
  · intro h
    have leaf : Leaf ⟨.word, 0, word⟩ (ofWord word) := leaf_ofWord rfl
    rw [h] at leaf ⊢
    cases leaf with
    | symbol _ other plain => exact ⟨rfl, nofun, plain⟩
  · rintro ⟨rfl, other, plain⟩
    rw [ofWord_of_other fun n numeral => other n (ofWord_eq_int numeral), if_neg plain]

/-- **What words denote.** Wherever a word stands, in any open lists and in front of anything, it is
read as one leaf. This is the integer `m` exactly if the word is a sign, which may be left out, and
one or more decimal digits, `m` is the value of the digits with this sign, and `m` fits 64 bits.
Otherwise the leaf has the word itself as its name: it is a keyword exactly if the word starts with
a colon, and a symbol if not. The decimal text of every 64-bit number is a word, and is read as this
number, also where it is a whole source text. -/
theorem word_exact [Text.Alphabet] (word : String) :
    (∀ offset opened rest, readRest opened (⟨.word, offset, word⟩ :: rest) =
      handOver (ofWord word) rest opened) ∧
    (∀ m : Int, (∃ n : Int64, n.toInt = m ∧ ofWord word = .int n) ↔
      (∃ sign times digits, Text.Sign sign times ∧ Text.Digits digits ∧
        word.toList = sign ++ digits ∧ m = times * Text.positional digits) ∧
      -2 ^ 63 ≤ m ∧ m ≤ 2 ^ 63 - 1) ∧
    (∀ name, ofWord word = .keyword name ↔
      name = word ∧ (∀ n, ofWord word ≠ .int n) ∧ word.toList.head? = some ':') ∧
    (∀ name, ofWord word = .symbol name ↔
      name = word ∧ (∀ n, ofWord word ≠ .int n) ∧ word.toList.head? ≠ some ':') ∧
    ∀ n : Int64, ofWord (String.ofList (Text.decimal n.toInt)) = .int n ∧
      ∀ l, Model.nodesOfSource l (String.ofList (Text.decimal n.toInt)) = .ok [.int n] := by
  refine ⟨fun offset opened rest => ?_, fun m => ?_, fun name => ofWord_eq_keyword_iff,
    fun name => ofWord_eq_symbol_iff, fun n => ⟨?_, fun l => ?_⟩⟩
  · exact readRest_of_give (Progress.of_leaf (leaf_ofWord rfl))
  · rw [← Text.exists_int64_iff, ← Text.numeral_iff]
    constructor
    · rintro ⟨n, rfl, read⟩
      exact ⟨ofWord_eq_int_iff.mp read, n, rfl⟩
    · rintro ⟨numeral, n, rfl⟩
      exact ⟨n, rfl, ofWord_eq_int_iff.mpr numeral⟩
  · refine ofWord_eq_int ?_
    rw [String.toList_ofList]
    exact Text.numeral_decimal n.toInt
  · have read := Model.nodesOfSource_render (.int n) l
    rwa [render] at read

example : ofWord "-00009223372036854775808" = .int Int64.minValue := rfl

example : ofWord "+9223372036854775808" = .symbol "+9223372036854775808" := by
  with_unfolding_all rfl

end Node

end ProtocolGraph
