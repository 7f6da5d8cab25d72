import ProtocolGraph.Proofs.Token.Cutting

/-!
# Quotes that are never closed

A text may be cut though its last quote is never closed. To tolerate such a quote is to read the
text as if a closing quote came at its end, and it makes no other difference.

* `scan_of_closed`, `scan_of_ne_unterminated`: only an open quote is cut otherwise where it is
  tolerated.
* `scan_append_quoted`: behind a text that is cut, a quote that starts a token is read as it is read
  alone.
* **`scan_tolerant`**: strict and tolerant cutting of one text side by side, and the strict cutting
  of the text with its last quote closed.
-/

namespace ProtocolGraph.Token

variable {l : Leniency} {offset : Nat} {before rest source : String} {tokens : List Token}

theorem ofList_quote_toList (body : String) :
    String.ofList ('"' :: body.toList) = "\"" ++ body := by
  rw [← String.toList_inj, String.toList_ofList, String.toList_append]
  rfl

section

variable [Text.Alphabet]

/-- Where an open quote is not tolerated, the cutting is the strict one. -/
theorem scan_of_closed (closed : l.unterminatedText = false) (source : String) :
    scan l source = scan .strict source :=
  (scanFrom_lenient l 0 source.toList).resolve_right fun ⟨tolerated, _⟩ =>
    nomatch closed.symm.trans tolerated

/-- Where no quote stays open, all cuttings agree. -/
theorem scan_of_ne_unterminated {outcome : Except Fault (List Token)}
    (cut : scan .strict source = outcome)
    (none : ∀ offset, outcome ≠ .error (.unterminatedText offset)) (l : Leniency) :
    scan l source = outcome := by
  rcases scanFrom_lenient l 0 source.toList with same | ⟨-, offset, failed⟩
  · exact same.trans cut
  · exact absurd (cut.symm.trans failed) (none offset)

/-- **Behind a text that is cut,** a quote that is no part of a word starts a token. -/
theorem scan_append_quoted (cut : scan .strict before = .ok tokens)
    (outside : ¬WordEndsAt tokens before.utf8ByteSize) (l : Leniency) (rest : String) :
    scan l (before ++ ("\"" ++ rest)) =
      (scanFrom l before.utf8ByteSize ('"' :: rest.toList)).map (tokens ++ ·) := by
  have divided := scan_eq_ok_iff.mp cut
  have start : 0 + Text.byteLength before.toList = before.utf8ByteSize := by
    rw [Nat.zero_add, Text.byteLength_toList]
  rw [scan, String.toList_append, String.toList_append, ← start]
  refine divided.scanFrom_append l _ (fun tolerated => nomatch tolerated) fun c _ _ => ?_
  rwa [start]

/-- A quoted text that is closed at the end of the source is all that is cut there. -/
theorem scanFrom_quoted_end {body : String} (plain : '"' ∉ body.toList) :
    scanFrom l offset ('"' :: (body ++ "\"").toList) =
      .ok [⟨.quoted, offset, "\"" ++ (body ++ "\"")⟩] := by
  have characters : (body ++ "\"").toList = body.toList ++ '"' :: [] := String.toList_append
  have closing : scanFrom l offset ('"' :: (body.toList ++ '"' :: [])) = _ :=
    scanFrom_quoted_append plain
  rw [← characters, ofList_quote_toList, scanFrom] at closing
  exact closing

/-- A quote that is never closed is read to the end of the text where this is tolerated, and just
so, with a quote more, where one is added. -/
theorem scan_of_unterminated (failed : scan .strict source = .error (.unterminatedText offset)) :
    ∃ before rest tokens, source = before ++ rest ∧ before.utf8ByteSize = offset ∧
      scan .strict before = .ok tokens ∧
      (∀ l : Leniency, l.unterminatedText = true →
        scan l source = .ok (tokens ++ [⟨.quoted, offset, rest⟩])) ∧
      ∀ l, scan l (source ++ "\"") = .ok (tokens ++ [⟨.quoted, offset, rest ++ "\""⟩]) := by
  obtain ⟨-, before, body, rfl, plain, rfl, tokens, cut, outside⟩ :=
    scan_eq_unterminated_iff.mp failed
  refine ⟨before, "\"" ++ body, tokens, String.append_assoc, rfl, cut, fun l tolerated => ?_,
    fun l => ?_⟩
  · rw [String.append_assoc, scan_append_quoted cut outside, scanFrom_unclosed plain,
      if_pos tolerated, ofList_quote_toList]
    rfl
  · rw [String.append_assoc, String.append_assoc, scan_append_quoted cut outside,
      scanFrom_quoted_end plain, String.append_assoc]
    rfl

/-- **Tolerating an open quote closes it.** A text that is cut strictly is cut in the same way where
an open quote is tolerated, and a character of no use is reported in the same way. A text whose last
quote stays open has then just the tokens that stand before this quote and one more, which is
everything from the quote on; and these are the tokens that strict cutting finds when a quote is
added to the text, which only the last of them gets. -/
theorem scan_tolerant (leniency : Leniency) (source : String) :
    let strict := scan { leniency with unterminatedText := false }
    let tolerant := scan { leniency with unterminatedText := true }
    (∀ tokens, strict source = .ok tokens → tolerant source = .ok tokens) ∧
    (∀ c offset, strict source = .error (.unknownCharacter c offset) →
      tolerant source = .error (.unknownCharacter c offset)) ∧
    ∀ offset, strict source = .error (.unterminatedText offset) →
      ∃ before rest tokens, source = before ++ rest ∧ before.utf8ByteSize = offset ∧
        strict before = .ok tokens ∧
        tolerant source = .ok (tokens ++ [⟨.quoted, offset, rest⟩]) ∧
        strict (source ++ "\"") = .ok (tokens ++ [⟨.quoted, offset, rest ++ "\""⟩]) := by
  intro strict tolerant
  have closed : ∀ source, strict source = scan .strict source := scan_of_closed rfl
  simp only [closed]
  refine ⟨fun tokens cut => scan_of_ne_unterminated cut nofun _,
    fun c offset failed => scan_of_ne_unterminated failed nofun _, fun offset failed => ?_⟩
  obtain ⟨before, rest, tokens, whole, start, cut, toEnd, added⟩ := scan_of_unterminated failed
  exact ⟨before, rest, tokens, whole, start, cut, toEnd _ rfl, added _⟩

end

/-- A quote at the end of a word is a character of the word, so nothing is left open there; one
behind a mark is left open, though it is the last character. -/
theorem scan_tolerant_lastCharacter :
    (scan .strict "é\"" = .ok [⟨.word, 0, "é\""⟩] ∧
      scan { unterminatedText := true } "é\"" = .ok [⟨.word, 0, "é\""⟩]) ∧
    (scan .strict "(\x07" = .error (.unknownCharacter '\x07' 1) ∧
      scan { unterminatedText := true } "(\x07" = .error (.unknownCharacter '\x07' 1)) ∧
    scan .strict "é\"b(\"" = .error (.unterminatedText 5) ∧
      ∃ before rest tokens, "é\"b(\"" = before ++ rest ∧ before.utf8ByteSize = 5 ∧
        scan .strict before = .ok tokens ∧
        scan { unterminatedText := true } "é\"b(\"" = .ok (tokens ++ [⟨.quoted, 5, rest⟩]) ∧
        scan .strict ("é\"b(\"" ++ "\"") = .ok (tokens ++ [⟨.quoted, 5, rest ++ "\""⟩]) := by
  have word : scan .strict "é\"" = .ok [⟨.word, 0, "é\""⟩] := by decide +kernel
  have bell : scan .strict "(\x07" = .error (.unknownCharacter '\x07' 1) := by decide +kernel
  have lastOpen : scan .strict "é\"b(\"" = .error (.unterminatedText 5) := by decide +kernel
  exact ⟨⟨word, (scan_tolerant .strict _).1 _ word⟩, ⟨bell, (scan_tolerant .strict _).2.1 _ _ bell⟩,
    lastOpen, (scan_tolerant .strict _).2.2 5 lastOpen⟩

end ProtocolGraph.Token
