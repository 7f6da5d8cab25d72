import ProtocolGraph.Leniency
import ProtocolGraph.Process

/-!
# Process graphs under construction

A `Draft` is a process graph that grows, with no more than what tells two of them apart. It owns its
states and transitions, knows at which state the path under construction ends, which labels have
been placed, and which variables are in scope. The counters and tables that `ProcessBuilder` keeps
besides can be worked out from these: `Builder` has them all.

* States are numbered from one in the order of their creation, so the next number is one more than
  how many there are. State one is the initial state and is named `:start`.
* `stateNamed?` finds a state by name. A name may be reserved by a jump (`reserve`) before its label
  is placed (`place`), and a label is placed at most once. `unplaced` lists the reserved names that
  never were.
* Variables are numbered from zero in the order in which they are bound, over all scopes; a scope
  binds a name at most once, and the innermost binding of a name counts (`resolve`).

Operations that can fail answer a new draft only if they do not.
-/

namespace ProtocolGraph

/-- A process graph under construction. -/
structure Draft where
  /-- The states. -/
  states : List State
  /-- The transitions, in the order in which they were drawn. -/
  transitions : List Transition
  /-- The state at which the path under construction ends. There is none after a jump. -/
  current : Option StateId
  /-- The labels that have been placed. -/
  placed : List String
  /-- The variables of each open scope, innermost scope first. -/
  scopes : List (List Variable)
  /-- All variables ever bound. -/
  vars : List Variable
deriving DecidableEq

namespace Draft

/-- Why an operation on a draft fails (`GraphError`). -/
inductive Fault where
  /-- The name belongs to a state already, or its label has been placed. -/
  | duplicateState (name : String)
  /-- A jump names a label that is never placed. -/
  | unplacedLabel (name : String)
  /-- Control cannot reach the statement. -/
  | unreachable (statement : String)
  /-- The innermost scope binds the name already. -/
  | duplicateVariable (name : String)
  /-- No open scope binds the name. -/
  | unresolvedVariable (name : String)
  /-- No scope is open. -/
  | noOpenScope
deriving DecidableEq

/-- The text of the fault. -/
def Fault.message : Fault → String
  | .duplicateState name => s!"state {name} already known"
  | .unplacedLabel name => s!"goto target {name} is never declared"
  | .unreachable statement => s!"{statement} is unreachable"
  | .duplicateVariable name => s!"variable {name} already bound in this scope"
  | .unresolvedVariable name => s!"could not resolve variable {name}"
  | .noOpenScope => "no lexical scope is open"

/-- The number of the initial state. -/
def initial : StateId := 1

/-- The name of the initial state. -/
def startLabel : String := ":start"

/-- The draft with nothing but the initial state, where the path starts. -/
def empty : Draft where
  states := [⟨initial, some startLabel⟩]
  transitions := []
  current := some initial
  placed := [startLabel]
  scopes := []
  vars := []

/-! ## States and transitions -/

/-- The number of the next state. -/
def nextState (d : Draft) : StateId :=
  d.states.length + 1

/-- Creates the next state (`push_state`). -/
def addState (name : Option String) (d : Draft) : Draft :=
  { d with states := d.states ++ [⟨d.nextState, name⟩] }

/-- The state of this name (`state_for_name`). -/
def stateNamed? (d : Draft) (name : String) : Option StateId :=
  (d.states.find? (·.name == some name)).map State.id

/-- A new state without a name (`alloc_unnamed_state`). -/
def addUnnamed (d : Draft) : StateId × Draft :=
  (d.nextState, d.addState none)

/-- A new state of a new name (`alloc_named_state`). -/
def addNamed (name : String) (d : Draft) : Except Fault (StateId × Draft) :=
  match d.stateNamed? name with
  | some _ => .error (.duplicateState name)
  | none => .ok (d.nextState, d.addState (some name))

/-- Draws a transition (`add_transition`). -/
def connect (t : Transition) (d : Draft) : Draft :=
  { d with transitions := d.transitions ++ [t] }

/-- Moves the end of the path (`set_current`). -/
def moveTo (current : Option StateId) (d : Draft) : Draft :=
  { d with current := current }

/-! ## Labels -/

/-- The state of a name, which is created if there is none (`jump_target`). -/
def reserve (name : String) (d : Draft) : StateId × Draft :=
  match d.stateNamed? name with
  | some id => (id, d)
  | none => (d.nextState, d.addState (some name))

/-- The state of a label that is now placed (`declare_label`). -/
def place (name : String) (d : Draft) : Except Fault (StateId × Draft) :=
  if name ∈ d.placed then .error (.duplicateState name)
  else
    let (id, d) := d.reserve name
    .ok (id, { d with placed := d.placed ++ [name] })

/-- The names of states whose label has not been placed, in increasing order of code points
(`unresolved_labels`). -/
def unplaced (d : Draft) : List String :=
  ((d.states.filterMap State.name).filter (· ∉ d.placed)).mergeSort (fun a b => decide (a ≤ b))

/-! ## Scopes -/

/-- Opens a scope. -/
def openScope (d : Draft) : Draft :=
  { d with scopes := [] :: d.scopes }

/-- Closes the innermost scope. -/
def closeScope (d : Draft) : Except Fault Draft :=
  match d.scopes with
  | [] => .error .noOpenScope
  | _ :: outer => .ok { d with scopes := outer }

/-- Binds a name in the innermost scope (`bind_variable`). -/
def bind (name : String) (d : Draft) : Except Fault (VariableId × Draft) :=
  match d.scopes with
  | [] => .error .noOpenScope
  | scope :: outer =>
    if scope.any (·.name == name) then .error (.duplicateVariable name)
    else
      let v : Variable := ⟨d.vars.length, name⟩
      .ok (v.id, { d with
        scopes := (scope ++ [v]) :: outer
        vars := d.vars ++ [v] })

/-- The innermost binding of a name (`resolve_variable`). -/
def resolve (d : Draft) (name : String) : Except Fault Variable :=
  match d.scopes.findSome? (·.find? (·.name == name)) with
  | some v => .ok v
  | none => .error (.unresolvedVariable name)

/-! ## Completion -/

/-- The process that the draft has become. Unless it is tolerated, no label may be left
unplaced; of several, the first in order is reported. -/
def finish (leniency : Leniency) (name : Option String) (d : Draft) : Except Fault Process :=
  let process : Process :=
    { name, vars := d.vars, initial, states := d.states, transitions := d.transitions }
  if leniency.unplacedLabels then .ok process
  else
    match d.unplaced with
    | [] => .ok process
    | label :: _ => .error (.unplacedLabel label)

end Draft

end ProtocolGraph
