import ProtocolGraph.Text.Blank
import ProtocolGraph.Text.Printable
import ProtocolGraph.Text.Quoted

/-!
# Tokens

Source text is a sequence of tokens with blanks between them: single punctuation marks, quoted
texts and words. A `Token` keeps the text it spans, quotes included, and the number of bytes of
source before it.

`Token.Fault` says why a text has no tokens.
-/

namespace ProtocolGraph

/-- The number of bytes that encode the characters in UTF-8. -/
def Text.byteLength (cs : List Char) : Nat :=
  cs.foldr (fun c n => c.utf8Size + n) 0

/-- The kind of a token (`TokenKind`). -/
inductive Token.Kind where
  /-- One of the four marks `(`, `)`, `{` and `}`. -/
  | punctuation
  /-- A text between double quotes. -/
  | quoted
  /-- A run of other visible characters. -/
  | word
deriving DecidableEq

/-- A piece of source text with its place. -/
structure Token where
  /-- The kind of the token. -/
  kind : Token.Kind
  /-- The number of bytes before the token. -/
  offset : Nat
  /-- The characters that the token spans. -/
  text : String
deriving DecidableEq

namespace Token

/-- Why a text has no tokens (`LexError`). -/
inductive Fault where
  /-- A character that is neither blank nor printable stands outside quotes. -/
  | unknownCharacter (character : Char) (offset : Nat)
  /-- The quote at this offset is never closed. -/
  | unterminatedText (offset : Nat)
deriving DecidableEq

/-- The text of the fault. -/
def Fault.message : Fault → String
  | .unknownCharacter c offset => s!"unknown character {Text.quotedChar c} at offset {offset}"
  | .unterminatedText offset => s!"unterminated string literal starting at offset {offset}"

/-- The character is a token of its own (`is_punctuation`). -/
def isPunctuation (c : Char) : Bool :=
  c == '(' || c == ')' || c == '{' || c == '}'

/-- The character can stand in a word. -/
def isWordCharacter [Text.Alphabet] (c : Char) : Bool :=
  Text.Alphabet.printable c && !Text.isBlank c && !isPunctuation c

/-- The token is this punctuation mark. -/
def isMark (t : Token) (mark : String) : Bool :=
  t.kind == .punctuation && t.text == mark

end Token

@[simp] theorem Text.byteLength_nil : Text.byteLength [] = 0 := rfl

@[simp] theorem Text.byteLength_cons (c : Char) (cs : List Char) :
    Text.byteLength (c :: cs) = c.utf8Size + Text.byteLength cs := rfl

@[simp] theorem Text.byteLength_append (as bs : List Char) :
    Text.byteLength (as ++ bs) = Text.byteLength as + Text.byteLength bs := by
  induction as with
  | nil => simp
  | cons c cs ih =>
    rw [List.cons_append, byteLength_cons, byteLength_cons, ih, Nat.add_assoc]

end ProtocolGraph
