import ProtocolGraph.Draft.Attempt
import ProtocolGraph.Statement.Basic

/-!
# The graph of a statement

`Statement.extend` draws a statement into a draft, from the end of the path under construction, as
`translate_body_form` does once it has read the arguments:

* a message leads to a new state;
* a label leads to the state of its name, silently, and also starts a path where control could not
  come from above;
* a jump leads to the state of its target, silently, and ends the path;
* a branch leads to a new state for each of its alternatives. Those that end somewhere meet again in
  one new state; if none does the path has ended. Without an alternative the branch is left only
  through its consequent.

Statements other than labels fail where the path has ended. A branch in which a statement fails
stays as far as it was drawn.
-/

namespace ProtocolGraph

namespace Label

/-- Sending a message with the values of its fields. -/
def sending (message : String) (valuation : Valuation) : Label where
  action := some (.send message)
  valuation := some valuation

/-- Receiving a message. -/
def receiving (message : String) : Label where
  action := some (.receive message)

/-- Entering a branch whose guard holds. -/
def entering (guard : Expression) : Label where
  action := some (.send "then")
  guard := some guard

/-- Passing a branch whose guard does not hold. -/
def passing (guard : Expression) : Label where
  guard := some guard.negate

/-- Leaving a branch, which announces the end of an alternative by its name. -/
def leaving (name : String) : Label where
  action := some (.send name)

end Label

namespace Draft

/-- A new state, entered from `source` over this label, where the path then ends. -/
def step (source : StateId) (label : Label) (d : Draft) : Draft :=
  ((d.addState none).connect ⟨source, d.nextState, label⟩).moveTo (some d.nextState)

/-- A transition from `source`, if there is one. -/
def connectFrom (source : Option StateId) (target : StateId) (label : Label) (d : Draft) : Draft :=
  match source with
  | none => d
  | some source => d.connect ⟨source, target, label⟩

/-- A new state where two alternatives meet that end where control may not come. -/
def join (consequent alternative : Option StateId) (d : Draft) : Draft :=
  if consequent = none ∧ alternative = none then d.moveTo none
  else
    (((d.addState none).connectFrom consequent d.nextState (.leaving "ifend")).connectFrom
      alternative d.nextState (.leaving "elseend")).moveTo (some d.nextState)

/-- Places a label at the end of the path (`name_current_state`). The start label changes nothing
where the path is still at the initial state. -/
def placeHere (name : String) (d : Draft) : Attempt :=
  if name = startLabel ∧ d.current = some initial then .done d
  else
    match d.place name with
    | .error fault => .failed (.graph fault) d
    | .ok (id, placed) => .done ((placed.connectFrom d.current id {}).moveTo (some id))

/-- A silent transition to the state of a label, after which the path has ended (`goto`). -/
def jump (source : StateId) (target : String) (d : Draft) : Draft :=
  let (id, reserved) := d.reserve target
  (reserved.connect ⟨source, id, {}⟩).moveTo none

/-- Work from the end of the path, in a statement of this name. -/
def fromHere (statement : String) (d : Draft) (work : StateId → Attempt) : Attempt :=
  match d.current with
  | none => .failed (.graph (.unreachable statement)) d
  | some source => work source

end Draft

namespace Statement

/-- Draws the statement into the draft (`translate_body_form`). -/
def extend : Statement → Draft → Attempt
  | .label name, d => d.placeHere name
  | .send message valuation, d =>
    d.fromHere "!send" fun source => .done (d.step source (.sending message valuation))
  | .receive message, d =>
    d.fromHere "?receive" fun source => .done (d.step source (.receiving message))
  | .jump target, d => d.fromHere "goto" fun source => .done (d.jump source target)
  | .branch guard consequent, d =>
    d.fromHere "if" fun source =>
      ((consequent.extend (d.step source (.entering guard))).andThen fun d =>
        .done (d.join d.current none)).within "if"
  | .branchElse guard consequent alternative, d =>
    d.fromHere "if" fun source =>
      ((consequent.extend (d.step source (.entering guard))).andThen fun d =>
        (alternative.extend (d.step source (.passing guard))).andThen fun e =>
          .done (e.join d.current e.current)).within "if"
  | .misread form cause, d => d.fromHere form fun _ => (Attempt.failed cause d).within form
  | .foreign cause, d => .failed cause d

/-- Draws statements one after the other, up to the first that fails. -/
def extendAll : List Statement → Draft → Attempt
  | [], d => .done d
  | s :: rest, d => (s.extend d).andThen (extendAll rest)

theorem extendAll_append (as bs : List Statement) (d : Draft) :
    extendAll (as ++ bs) d = (extendAll as d).andThen (extendAll bs) := by
  induction as generalizing d with
  | nil => rfl
  | cons s rest ih =>
    rw [List.cons_append, extendAll, extendAll, Attempt.andThen_assoc]
    exact congrArg (Attempt.andThen (s.extend d)) (funext ih)

end Statement

end ProtocolGraph
