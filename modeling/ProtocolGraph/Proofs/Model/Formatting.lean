import ProtocolGraph.Proofs.Model.Rendering
import ProtocolGraph.Proofs.Node.Place

/-!
# Formatting

How tokens are set apart makes no difference. Written with one space between each two, they are cut
as they were, and what they declare is the same.

* `Token.content`: what a token is apart from its place.
* `Token.spaced`: the texts of tokens with one space between each two.
* **`Token.Divides.exists_spaced`**: a text that is written so divides into tokens of the same
  contents.
* `Node.ofTokens_of_content`: nodes depend on the contents of tokens only, and so does a fault of
  theirs, but for the offset that it mentions.
* **`Model.ofSource_spaced`**: a source text can be written so, and has the same model or the same
  failure, but for this offset.
-/

namespace ProtocolGraph

/-! ## Tokens -/

namespace Token

/-- What the token is, apart from its place. -/
def content (t : Token) : Kind × String :=
  (t.kind, t.text)

/-- The token of this content, at the start of the source. -/
def ofContent (content : Kind × String) : Token where
  kind := content.1
  offset := 0
  text := content.2

/-- The texts of the tokens with one space between each two. -/
def spaced (tokens : List Token) : String :=
  " ".intercalate (tokens.map text)

variable {l : Leniency} {offset : Nat} {cs : List Char} {t : Token} {ts us : List Token}

theorem spaced_singleton : spaced [t] = t.text :=
  String.intercalate_singleton

theorem spaced_cons (h : ts ≠ []) :
    (spaced (t :: ts)).toList = t.text.toList ++ ' ' :: (spaced ts).toList := by
  have others : ts.map text ≠ [] := mt List.map_eq_nil_iff.mp h
  rw [spaced, List.map_cons, String.intercalate_cons_of_ne_nil others, String.toList_append,
    String.toList_append, List.append_assoc]
  rfl

/-- **Tokens written with spaces between them** are tokens of the same contents, wherever the text
stands. -/
theorem Divides.exists_spaced [Text.Alphabet] (h : Divides l offset cs ts) (start : Nat) :
    ∃ us, Divides l start (spaced ts).toList us ∧ us.map content = ts.map content := by
  induction h generalizing start with
  | gap blank => exact ⟨[], .gap blank_nil, rfl⟩
  | @token offset gap kind text after tokens blank lexeme rest ih =>
    by_cases last : tokens = []
    · subst last
      refine ⟨[⟨kind, start, String.ofList text⟩], ?_, rfl⟩
      have alone : Divides l start (text ++ []) [⟨kind, start, String.ofList text⟩] :=
        .cons lexeme.nil (fun _ => endsWord_nil) (.gap blank_nil)
      rw [spaced_singleton, String.toList_ofList]
      rwa [List.append_nil] at alone
    · -- the space ends a word, and it is a gap in front of the next token
      obtain ⟨us, divided, same⟩ := ih (start + Text.byteLength text + ' '.utf8Size)
      refine ⟨⟨kind, start, String.ofList text⟩ :: us, ?_, congrArg (_ :: ·) same⟩
      rw [spaced_cons last, String.toList_ofList]
      exact .cons lexeme.nil (fun _ => endsWord_cons_iff.mpr (Or.inl Text.isBlank_space))
        (divided.blank_cons Text.isBlank_space)
  | @unclosed offset gap body tolerated blank plain =>
    refine ⟨[⟨.quoted, start, String.ofList ('"' :: body)⟩], ?_, rfl⟩
    rw [spaced_singleton, String.toList_ofList]
    exact .unclosed tolerated blank_nil plain

end Token

/-! ## Nodes -/

namespace Node

variable {ts us stuck stuck' : List Token}

theorem placement_ofContent : Placement (Token.ofContent ∘ Token.content) :=
  ⟨fun _ => rfl, fun _ => rfl⟩

/-- Tokens of the same contents stand for the same fault, but for an offset. -/
theorem Fault.at_of_content (same : stuck'.map Token.content = stuck.map Token.content) :
    Fault.at stuck' = Fault.at stuck ∨ ∃ text offset offset',
      Fault.at stuck = .unexpectedToken text offset ∧
      Fault.at stuck' = .unexpectedToken text offset' := by
  cases stuck with
  | nil =>
    rw [List.map_eq_nil_iff.mp same]
    exact Or.inl rfl
  | cons t rest =>
    obtain ⟨t', rest', rfl, content, -⟩ := List.map_eq_cons_iff.mp same
    have text : t'.text = t.text := congrArg Prod.snd content
    refine Or.inr ⟨t.text, t.offset, t'.offset, rfl, ?_⟩
    rw [Fault.at, text]

/-- The same nodes are read from tokens of the same contents, or the tokens from the fault on have
the same contents. -/
theorem readAll_of_content (same : us.map Token.content = ts.map Token.content) :
    (∃ ns, readAll us = .ok ns ∧ readAll ts = .ok ns) ∨
    ∃ stuck stuck', readAll us = .error stuck' ∧ readAll ts = .error stuck ∧
      stuck'.map Token.content = stuck.map Token.content := by
  have read : (readAll us).mapError (List.map (Token.ofContent ∘ Token.content)) =
      (readAll ts).mapError (List.map (Token.ofContent ∘ Token.content)) := by
    rw [← readAll_map placement_ofContent, ← readAll_map placement_ofContent, ← List.map_map, same,
      List.map_map]
  cases there : readAll us with
  | ok ns =>
    rw [there] at read
    exact Or.inl ⟨ns, rfl, Outcome.mapError_eq_ok_iff.mp read.symm⟩
  | error stuck' =>
    rw [there] at read
    obtain ⟨stuck, here, placed⟩ := Outcome.mapError_eq_error_iff.mp read.symm
    have contents := congrArg (List.map Token.content) placed
    rw [List.map_map, List.map_map] at contents
    exact Or.inr ⟨stuck, stuck', rfl, here, contents.symm⟩

/-- **Nodes depend on the contents of tokens only**, and so does a fault, but for an offset. -/
theorem ofTokens_of_content (same : us.map Token.content = ts.map Token.content) :
    ofTokens us = ofTokens ts ∨ ∃ text offset offset',
      ofTokens ts = .error (.unexpectedToken text offset) ∧
      ofTokens us = .error (.unexpectedToken text offset') := by
  have empty : us = [] ↔ ts = [] := by
    rw [← List.map_eq_nil_iff (f := Token.content), same, List.map_eq_nil_iff]
  by_cases none : ts = []
  · exact Or.inl (by rw [none, empty.mpr none])
  rw [ofTokens, ofTokens, if_neg none, if_neg (mt empty.mp none)]
  rcases readAll_of_content same with ⟨ns, there, here⟩ | ⟨stuck, stuck', there, here, contents⟩
  · exact Or.inl (by rw [there, here])
  · rw [there, here]
    exact (Fault.at_of_content contents).imp (congrArg Except.error)
      fun ⟨text, offset, offset', fault, fault'⟩ =>
        ⟨text, offset, offset', congrArg Except.error fault, congrArg Except.error fault'⟩

end Node

/-! ## Models -/

namespace Model

variable {l : Leniency} {source : String} {tokens : List Token}

/-- **Formatting makes no difference.** The tokens of a source text, written with one space between
each two, are cut into tokens of the same kinds and texts. The text has the same model then, or the
same failure, but for the offset of a token that is not expected. -/
theorem ofSource_spaced [Text.Alphabet] (cut : Token.scan l source = .ok tokens) :
    (∃ us, Token.scan l (Token.spaced tokens) = .ok us ∧
      us.map Token.content = tokens.map Token.content) ∧
    (ofSource l (Token.spaced tokens) = ofSource l source ∨ ∃ text offset offset',
      ofSource l source = .error (.of (.node (.unexpectedToken text offset))) ∧
      ofSource l (Token.spaced tokens) =
        .error (.of (.node (.unexpectedToken text offset')))) := by
  obtain ⟨us, divided, same⟩ := (Token.scan_eq_ok_iff.mp cut).exists_spaced 0
  have recut := Token.scan_eq_ok_iff.mpr divided
  refine ⟨⟨us, recut, same⟩, ?_⟩
  rw [ofSource, ofSource, nodesOfSource_of_scan cut, nodesOfSource_of_scan recut]
  rcases Node.ofTokens_of_content same with read | ⟨text, offset, offset', failed, failed'⟩
  · exact Or.inl (by rw [read])
  · rw [failed, failed']
    exact Or.inr ⟨text, offset, offset', rfl, rfl⟩

/-- A word that holds quotes stands next to a mark, one text between quotes next to another, and the
last of them is never closed. The brace is not expected. -/
theorem ofSource_spaced_adjacent : ∃ tokens,
    Token.scan { unterminatedText := true } "(é\"b\"\x7b\"c d\"\"(e" = .ok tokens ∧
    Token.spaced tokens = "( é\"b\" \x7b \"c d\" \"(e" ∧
    (∃ us, Token.scan { unterminatedText := true } (Token.spaced tokens) = .ok us ∧
      us.map Token.content = tokens.map Token.content) ∧
    ofSource { unterminatedText := true } "(é\"b\"\x7b\"c d\"\"(e" =
      .error (.of (.node (.unexpectedToken "\x7b" 6))) ∧
    ∃ offset, ofSource { unterminatedText := true } (Token.spaced tokens) =
      .error (.of (.node (.unexpectedToken "\x7b" offset))) := by
  have cut : Token.scan { unterminatedText := true } "(é\"b\"\x7b\"c d\"\"(e" = .ok
      [⟨.punctuation, 0, "("⟩, ⟨.word, 1, "é\"b\""⟩, ⟨.punctuation, 6, "\x7b"⟩,
        ⟨.quoted, 7, "\"c d\""⟩, ⟨.quoted, 12, "\"(e"⟩] := by
    decide +kernel
  have failed : ofSource { unterminatedText := true } "(é\"b\"\x7b\"c d\"\"(e" =
      .error (.of (.node (.unexpectedToken "\x7b" 6))) := by
    decide +kernel
  obtain ⟨recut, alike⟩ := ofSource_spaced cut
  refine ⟨_, cut, by decide +kernel, recut, failed, ?_⟩
  rw [failed] at alike
  rcases alike with same | ⟨text, offset, offset', here, there⟩
  · exact ⟨6, same⟩
  · cases here
    exact ⟨offset', there⟩

end Model

end ProtocolGraph
