import ProtocolGraph.Leniency
import ProtocolGraph.Token.Basic

/-!
# From text to tokens

`Token.scan` cuts a text into tokens, each as long as it can be. Blanks are skipped. A double
quote at the start of a token opens a quoted text, which runs to the next double quote whatever
stands between; inside a word it is an ordinary character.

The offset of each token, and of the character or quote at fault, is a number of bytes.
-/

namespace ProtocolGraph.Token

/-- The character ends the body of a quoted text. -/
def isQuote (c : Char) : Bool :=
  c == '"'

/-- The tokens of `cs`, which stands `offset` bytes into the source. -/
def scanFrom [Text.Alphabet] (leniency : Leniency) (offset : Nat) :
    List Char → Except Fault (List Token)
  | [] => .ok []
  | c :: rest =>
    if Text.isBlank c then scanFrom leniency (offset + c.utf8Size) rest
    else if isPunctuation c then
      (scanFrom leniency (offset + c.utf8Size) rest).map
        (⟨.punctuation, offset, String.singleton c⟩ :: ·)
    else if isQuote c then
      let body := rest.takeWhile (!isQuote ·)
      match _h : rest.dropWhile (!isQuote ·) with
      | [] =>
        if leniency.unterminatedText then .ok [⟨.quoted, offset, String.ofList (c :: body)⟩]
        else .error (.unterminatedText offset)
      | close :: after =>
        let text := c :: body ++ [close]
        (scanFrom leniency (offset + Text.byteLength text) after).map
          (⟨.quoted, offset, String.ofList text⟩ :: ·)
    else if Text.Alphabet.printable c then
      let text := c :: rest.takeWhile isWordCharacter
      (scanFrom leniency (offset + Text.byteLength text) (rest.dropWhile isWordCharacter)).map
        (⟨.word, offset, String.ofList text⟩ :: ·)
    else .error (.unknownCharacter c offset)
termination_by cs => cs.length
decreasing_by
  · simp
  · simp
  · have := (List.dropWhile_sublist (l := rest) (p := (!isQuote ·))).length_le
    simp_all
    omega
  · have := (List.dropWhile_sublist (l := rest) (p := isWordCharacter)).length_le
    simp
    omega

/-- The tokens of a source text (`lex_with_options`). -/
def scan [Text.Alphabet] (leniency : Leniency) (source : String) : Except Fault (List Token) :=
  scanFrom leniency 0 source.toList

end ProtocolGraph.Token
