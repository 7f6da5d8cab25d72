import ProtocolGraph.Text.Legible

/-!
# Quoting text in messages

A message shows a character or a piece of source text between quotes, so that nothing in it is lost
on the reader:

* the delimiter and the backslash are preceded by a backslash;
* tab, line feed, carriage return and `U+0000` have the letters `t`, `n`, `r` and `0`;
* any other character that is not legible is written by its code point in hexadecimal, without
  leading zeros;
* all other characters stand for themselves.
-/

namespace ProtocolGraph.Text

/-- The code point of a character, as `\u` and its hexadecimal digits in braces. -/
def codePointEscape (c : Char) : List Char :=
  ['\\', 'u', '\x7b'] ++ Nat.toDigits 16 c.toNat ++ ['\x7d']

/-- One character of a quotation that `delimiter` closes. -/
def escape (delimiter c : Char) : List Char :=
  if c = delimiter ∨ c = '\\' then ['\\', c]
  else if c = '\t' then ['\\', 't']
  else if c = '\n' then ['\\', 'n']
  else if c = '\r' then ['\\', 'r']
  else if c = '\x00' then ['\\', '0']
  else if isLegible c then [c]
  else codePointEscape c

/-- The quotation of `cs` between two copies of `delimiter`. -/
def quote (delimiter : Char) (cs : List Char) : String :=
  String.ofList (delimiter :: cs.flatMap (escape delimiter) ++ [delimiter])

/-- A character between apostrophes. -/
def quotedChar (c : Char) : String :=
  quote '\x27' [c]

/-- A piece of text between double quotes. -/
def quotedText (s : String) : String :=
  quote '"' s.toList

/-- A legible character other than the delimiter and the backslash stands for itself. -/
theorem escape_eq_self {delimiter c : Char} (hd : c ≠ delimiter) (hs : c ≠ '\\')
    (hl : isLegible c = true) : escape delimiter c = [c] := by
  have tab : c ≠ '\t' := fun h => absurd (h ▸ hl) (by decide +kernel)
  have line : c ≠ '\n' := fun h => absurd (h ▸ hl) (by decide +kernel)
  have carriage : c ≠ '\r' := fun h => absurd (h ▸ hl) (by decide +kernel)
  have null : c ≠ '\x00' := fun h => absurd (h ▸ hl) (by decide +kernel)
  simp [escape, *]

end ProtocolGraph.Text
