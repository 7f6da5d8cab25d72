import ProtocolGraph.Form.Walk

/-!
# Calls

A `Call` is a form that is read in place, as `CallForm` is: its arguments stay as they are, and a
`position` says which of them comes next. Nothing in the type keeps the position within the
arguments. Operations that look an argument up find none beyond the end, but `remaining` cuts the
arguments at the position and has no outcome where there is nothing to cut.

* `ofNodes` is `read_call`. It puts the position in front of the first argument.
* An operation answers its outcome together with the call that is left, also where the outcome is a
  fault: `named` (`next_named_param`), `positional` (`next_positional_param`), `optional`
  (`next_optional_param`), `skipKeyword` (`take_keyword`) and `remaining` move the position, `peek`,
  `isExhausted` and `finish` only look.
* `take` makes something of an argument that was looked up, as the accessors of `Param` do. The call
  is left as the lookup leaves it, whatever comes of that.
* `step` carries out one reading operation given as data. It has no outcome where `remaining` has
  none.

A `Form` holds just the arguments from the position on (`unread`).
-/

namespace ProtocolGraph

/-- A form that is read in place. -/
structure Call where
  /-- The name. -/
  name : String
  /-- The arguments, read or not. -/
  arguments : List Node
  /-- The number of the argument that comes next. -/
  position : Nat

namespace Call

open Form (Fault Reading Answer Step)

/-- The call that a list of nodes spells. -/
def ofNodes : List Node → Except Fault Call
  | [] => .error .emptyList
  | head :: arguments => head.expectSymbol.map (⟨·, arguments, 0⟩)

/-- The form with all the arguments. -/
def form (c : Call) : Form :=
  ⟨c.name, c.arguments⟩

/-- The form with the arguments that are unread. -/
def unread (c : Call) : Form :=
  ⟨c.name, c.arguments.drop c.position⟩

/-- The call with so many more arguments read. -/
def advance (count : Nat) (c : Call) : Call :=
  { c with position := c.position + count }

/-- The next argument, which stays unread. -/
def peek (c : Call) : Option Node :=
  c.arguments[c.position]?

/-- The next argument, which `keyword` may introduce. -/
def named (keyword : String) (c : Call) : Except Fault Node × Call :=
  match c.peek with
  | none => (.error .missingParameter, c)
  | some (.keyword found) =>
    if found ≠ keyword then (.error (.wrongKeyword keyword found), c)
    else
      match c.arguments[c.position + 1]? with
      | some value => (.ok value, c.advance 2)
      | none => (.error (.missingValue found), c)
  | some value => (.ok value, c.advance 1)

/-- The next argument. -/
def positional (c : Call) : Except Fault Node × Call :=
  match c.peek with
  | some value => (.ok value, c.advance 1)
  | none => (.error .endOfArguments, c)

/-- The next argument, if one is left. -/
def optional (c : Call) : Option Node × Call :=
  (c.positional.1.toOption, c.positional.2)

/-- Reads `keyword` itself, if it is the next argument. -/
def skipKeyword (keyword : String) (c : Call) : Bool × Call :=
  match c.peek with
  | some (.keyword found) => if found = keyword then (true, c.advance 1) else (false, c)
  | _ => (false, c)

/-- All the arguments from the position on, provided that it is not beyond the end. -/
def remaining (c : Call) : Option (List Node × Call) :=
  if c.position ≤ c.arguments.length then
    some (c.arguments.drop c.position, { c with position := c.arguments.length })
  else none

/-- No argument is left. -/
def isExhausted (c : Call) : Bool :=
  decide (c.arguments.length ≤ c.position)

/-- Fails if an argument is left. Where the position is beyond the end, none is. -/
def finish (c : Call) : Except Fault Unit :=
  match c.arguments.length - c.position with
  | 0 => .ok ()
  | count => .error (.trailing count)

/-- Makes something of an argument that was looked up. -/
def take (reading : Reading) (found : Except Fault Node × Call) : Except Cause Answer × Call :=
  match found with
  | (.error fault, c) => (.error (.argument fault), c)
  | (.ok n, c) => (reading.read n, c)

/-- Takes one step. There is no form around a call that could be left. -/
def step (c : Call) : Step → Option (Except Cause Answer × Call)
  | .named keyword reading => some (take reading (c.named keyword))
  | .positional reading => some (take reading c.positional)
  | .optional => some (.ok (.node c.optional.1), c.optional.2)
  | .peek => some (.ok (.node c.peek), c)
  | .skipKeyword keyword =>
    some (.ok (.flag (c.skipKeyword keyword).1), (c.skipKeyword keyword).2)
  | .remaining => c.remaining.map fun (rest, d) => (.ok (.nodes rest), d)
  | .finish => some ((c.finish.mapError .argument).map fun _ => .done, c)
  | .name => some (.ok (.text c.name), c)
  | .leave => some (.ok (.flag false), c)

/-- The call after these steps, if each of them has an outcome. -/
def run : List Step → Call → Option Call
  | [], c => some c
  | step :: rest, c => (c.step step).bind fun (_, d) => run rest d

end Call

end ProtocolGraph
