import ProtocolGraph.Token.Scan

/-!
# How a text is cut

One equation of `scanFrom` for each way in which a text can start: with a blank, a mark, a quoted
text that is closed or is not, a word, or a character of no use.

* **`scanFrom_lenient`**: cuttings part only at a quote that is never closed, where this is
  tolerated.
-/

namespace ProtocolGraph.Token

/-- The outcome is that of the strict cutting, unless this fails at a quote that is never closed and
the leniency tolerates it. -/
def Parted (leniency : Leniency) (lenient strict : Except Fault (List Token)) : Prop :=
  lenient = strict ∨
    leniency.unterminatedText = true ∧ ∃ start, strict = .error (.unterminatedText start)

theorem Parted.map {lenient strict : Except Fault (List Token)}
    (h : Parted leniency lenient strict) (f : List Token → List Token) :
    Parted leniency (lenient.map f) (strict.map f) := by
  rcases h with rfl | ⟨tolerated, start, rfl⟩
  · exact Or.inl rfl
  · exact Or.inr ⟨tolerated, start, rfl⟩

/-! ## Equations -/

variable [Text.Alphabet] {leniency : Leniency} {offset : Nat} {c : Char} {rest : List Char}

theorem scanFrom_blank (blank : Text.isBlank c = true) :
    scanFrom leniency offset (c :: rest) = scanFrom leniency (offset + c.utf8Size) rest := by
  rw [scanFrom, if_pos blank]

theorem scanFrom_mark (visible : ¬Text.isBlank c = true) (mark : isPunctuation c = true) :
    scanFrom leniency offset (c :: rest) = (scanFrom leniency (offset + c.utf8Size) rest).map
      (⟨.punctuation, offset, String.singleton c⟩ :: ·) := by
  rw [scanFrom, if_neg visible, if_pos mark]

section Quote

variable (visible : ¬Text.isBlank c = true) (unmarked : ¬isPunctuation c = true)
  (quote : isQuote c = true)

include visible unmarked quote

theorem scanFrom_open (unclosed : rest.dropWhile (!isQuote ·) = []) :
    scanFrom leniency offset (c :: rest) =
      if leniency.unterminatedText then
        .ok [⟨.quoted, offset, String.ofList (c :: rest.takeWhile (!isQuote ·))⟩]
      else .error (.unterminatedText offset) := by
  rw [scanFrom, if_neg visible, if_neg unmarked, if_pos quote]
  split
  · rfl
  · rename_i found
    cases unclosed.symm.trans found

theorem scanFrom_closed {close : Char} {after : List Char}
    (closed : rest.dropWhile (!isQuote ·) = close :: after) :
    scanFrom leniency offset (c :: rest) =
      (scanFrom leniency
          (offset + Text.byteLength (c :: rest.takeWhile (!isQuote ·) ++ [close])) after).map
        (⟨.quoted, offset, String.ofList (c :: rest.takeWhile (!isQuote ·) ++ [close])⟩ :: ·) := by
  rw [scanFrom, if_neg visible, if_neg unmarked, if_pos quote]
  split
  · rename_i found
    cases closed.symm.trans found
  · rename_i found
    cases closed.symm.trans found
    rfl

end Quote

section Word

variable (visible : ¬Text.isBlank c = true) (unmarked : ¬isPunctuation c = true)
  (unquoted : ¬isQuote c = true)

include visible unmarked unquoted

theorem scanFrom_word (printable : Text.Alphabet.printable c = true) :
    scanFrom leniency offset (c :: rest) =
      (scanFrom leniency (offset + Text.byteLength (c :: rest.takeWhile isWordCharacter))
          (rest.dropWhile isWordCharacter)).map
        (⟨.word, offset, String.ofList (c :: rest.takeWhile isWordCharacter)⟩ :: ·) := by
  rw [scanFrom, if_neg visible, if_neg unmarked, if_neg unquoted, if_pos printable]

theorem scanFrom_unknown (unprintable : ¬Text.Alphabet.printable c = true) :
    scanFrom leniency offset (c :: rest) = .error (.unknownCharacter c offset) := by
  rw [scanFrom, if_neg visible, if_neg unmarked, if_neg unquoted, if_neg unprintable]

end Word

/-! ## Leniency -/

/-- **Cuttings part only at a quote that is never closed.** -/
theorem scanFrom_lenient (leniency : Leniency) (offset : Nat) (cs : List Char) :
    Parted leniency (scanFrom leniency offset cs) (scanFrom .strict offset cs) := by
  induction offset, cs using scanFrom.induct Leniency.strict with
  | case1 offset =>
    rw [scanFrom, scanFrom]
    exact Or.inl rfl
  | case2 offset c rest blank ih =>
    rw [scanFrom_blank blank, scanFrom_blank blank]
    exact ih
  | case3 offset c rest visible mark ih =>
    rw [scanFrom_mark visible mark, scanFrom_mark visible mark]
    exact ih.map _
  | case4 offset c rest visible unmarked quote unclosed tolerated => cases tolerated
  | case5 offset c rest visible unmarked quote unclosed strict =>
    rw [scanFrom_open visible unmarked quote unclosed,
      scanFrom_open visible unmarked quote unclosed]
    by_cases tolerated : leniency.unterminatedText = true
    · exact Or.inr ⟨tolerated, offset, rfl⟩
    · rw [if_neg tolerated]
      exact Or.inl rfl
  | case6 offset c rest visible unmarked quote body close after closed text ih =>
    rw [scanFrom_closed visible unmarked quote closed,
      scanFrom_closed visible unmarked quote closed]
    exact ih.map _
  | case7 offset c rest visible unmarked unquoted printable text ih =>
    rw [scanFrom_word visible unmarked unquoted printable,
      scanFrom_word visible unmarked unquoted printable]
    exact ih.map _
  | case8 offset c rest visible unmarked unquoted unprintable =>
    rw [scanFrom_unknown visible unmarked unquoted unprintable,
      scanFrom_unknown visible unmarked unquoted unprintable]
    exact Or.inl rfl

end ProtocolGraph.Token
