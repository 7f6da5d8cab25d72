import ProtocolGraph.Json

/-!
# Leniency

What a reading of source text may let pass that is an error otherwise. A `Leniency` is the
`CompileOptions`. It can be given as a JSON object of truth values; one that is not given is false.
-/

namespace ProtocolGraph

/-- The faults that are tolerated. By default none is. -/
structure Leniency where
  /-- A quoted text without its closing quote runs to the end of the source. -/
  unterminatedText : Bool := false
  /-- A jump may name a label that is never placed; its target stays a dead end. -/
  unplacedLabels : Bool := false
deriving DecidableEq

namespace Leniency

/-- Nothing is tolerated. -/
def strict : Leniency := {}

/-- The JSON form of a leniency. -/
def toJson (l : Leniency) : Json :=
  .object [("allow_unterminated_strings", .bool l.unterminatedText),
    ("allow_unresolved_labels", .bool l.unplacedLabels)]

/-- A truth value that may be left out, and is false then. -/
def flag? [Json.Access] (key : String) (j : Json) : Option Bool :=
  match j.member? key with
  | none => some false
  | some value => value.bool?

/-- The leniency with this JSON form. -/
def ofJson [Json.Access] (j : Json) : Option Leniency := do
  let _ ← j.object?
  return {
    unterminatedText := ← flag? "allow_unterminated_strings" j
    unplacedLabels := ← flag? "allow_unresolved_labels" j }

end Leniency

end ProtocolGraph
