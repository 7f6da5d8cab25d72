import ProtocolGraph.Draft.Basic

/-!
# Builders

A `Builder` is a process graph under construction with all that `ProcessBuilder` keeps: the states
and transitions, the counters that states and variables are numbered from, the initial state, the
end of the path, the table of names, the set of names that a label form has declared, and the stack
of scopes. Nothing in the type makes these agree with each other; what the operations do keeps them
in step.

* An operation that can fail answers its outcome together with the builder that is left, also where
  it fails. What has been changed until then stays changed.
* `pushState` (`push_state`), `allocUnnamedState` (`alloc_unnamed_state`) and `allocNamedState`
  (`alloc_named_state`) create states.
* `declareLabel` (`declare_label`) and `jumpTarget` (`jump_target`) answer the state of a label, and
  create it if there is none; `unresolvedLabels` (`unresolved_labels`) lists what was never
  declared.
* `openScope`, `closeScope`, `bindVariable` and `resolveVariable` are the lexical scopes.
* `finish` closes the graph into a process.

A table is a list of entries in the order in which they were made. A set is a list without
repetitions.
-/

namespace ProtocolGraph

/-- The table with this entry, which replaces an earlier one of the same name. -/
def enterName {α : Type} (name : String) (value : α) (table : List (String × α)) :
    List (String × α) :=
  table.filter (·.1 ≠ name) ++ [(name, value)]

/-- A process graph under construction, and what is known about it. -/
structure Builder where
  /-- The number of the next state. -/
  nextState : StateId
  /-- The number of the next variable. -/
  nextVariable : VariableId
  /-- The initial state. -/
  initial : StateId
  /-- The state at which the path under construction ends. There is none after a jump. -/
  current : Option StateId
  /-- The states. -/
  states : List State
  /-- The transitions, in the order in which they were drawn. -/
  transitions : List Transition
  /-- The states of names. -/
  named : List (String × StateId)
  /-- The names that a label form has declared. -/
  declared : List String
  /-- The variables of each open scope by name, innermost scope first. -/
  scopes : List (List (String × Variable))
  /-- All variables ever bound. -/
  vars : List Variable
deriving DecidableEq

namespace Builder

open Draft (Fault startLabel)

/-! ## States and transitions -/

/-- Creates the next state. -/
def pushState (name : Option String) (b : Builder) : StateId × Builder :=
  (b.nextState, { b with
    nextState := b.nextState + 1
    states := b.states ++ [⟨b.nextState, name⟩] })

/-- A builder without states, which counts them from one and variables from zero. -/
def blank : Builder where
  nextState := 1
  nextVariable := 0
  initial := 1
  current := none
  states := []
  transitions := []
  named := []
  declared := []
  scopes := []
  vars := []

/-- A new builder (`new`): its one state is declared as `:start`, and the path starts there. -/
def new : Builder :=
  let (start, b) := blank.pushState (some startLabel)
  { b with
    named := enterName startLabel start b.named
    declared := b.declared ++ [startLabel]
    initial := start
    current := some start }

/-- A new state without a name. -/
def allocUnnamedState (b : Builder) : StateId × Builder :=
  b.pushState none

/-- The state of a name, if there is one. -/
def stateForName (name : String) (b : Builder) : Option StateId :=
  b.named.lookup name

/-- A new state of a new name. -/
def allocNamedState (name : String) (b : Builder) : Except Fault StateId × Builder :=
  if (b.named.lookup name).isSome then (.error (.duplicateState name), b)
  else
    let (id, b) := b.pushState (some name)
    (.ok id, { b with named := enterName name id b.named })

/-- Records a transition. -/
def addTransition (t : Transition) (b : Builder) : Builder :=
  { b with transitions := b.transitions ++ [t] }

/-- Moves the end of the path. -/
def setCurrent (current : Option StateId) (b : Builder) : Builder :=
  { b with current }

/-! ## Labels -/

/-- The name counts as declared. -/
def declare (name : String) (b : Builder) : Builder :=
  { b with declared := if name ∈ b.declared then b.declared else b.declared ++ [name] }

/-- The state that a label form names: one that a jump has reserved, or a new one. A label may be
declared only once. -/
def declareLabel (name : String) (b : Builder) : Except Fault StateId × Builder :=
  if name ∈ b.declared then (.error (.duplicateState name), b)
  else
    match b.stateForName name with
    | some id => (.ok id, b.declare name)
    | none =>
      match b.allocNamedState name with
      | (.error fault, b) => (.error fault, b)
      | (.ok id, b) => (.ok id, b.declare name)

/-- The state that a jump leads to, which is reserved if it is not there yet. -/
def jumpTarget (name : String) (b : Builder) : Except Fault StateId × Builder :=
  match b.stateForName name with
  | some id => (.ok id, b)
  | none => b.allocNamedState name

/-- The names of states that no label form has declared, in increasing order of code points. -/
def unresolvedLabels (b : Builder) : List String :=
  ((b.named.map Prod.fst).filter (· ∉ b.declared)).mergeSort (fun a b => decide (a ≤ b))

/-! ## Scopes -/

/-- Opens a scope. -/
def openScope (b : Builder) : Builder :=
  { b with scopes := [] :: b.scopes }

/-- Closes the innermost scope. -/
def closeScope (b : Builder) : Except Fault Unit × Builder :=
  match b.scopes with
  | [] => (.error .noOpenScope, b)
  | _ :: outer => (.ok (), { b with scopes := outer })

/-- Binds a name in the innermost scope. -/
def bindVariable (name : String) (b : Builder) : Except Fault VariableId × Builder :=
  match b.scopes with
  | [] => (.error .noOpenScope, b)
  | scope :: outer =>
    if (scope.lookup name).isSome then (.error (.duplicateVariable name), b)
    else
      let v : Variable := ⟨b.nextVariable, name⟩
      (.ok v.id, { b with
        nextVariable := b.nextVariable + 1
        scopes := enterName name v scope :: outer
        vars := b.vars ++ [v] })

/-- The innermost binding of a name. -/
def resolveVariable (name : String) (b : Builder) : Except Fault Variable :=
  match b.scopes.findSome? (·.lookup name) with
  | some v => .ok v
  | none => .error (.unresolvedVariable name)

/-! ## Completion -/

/-- The process that has been built. Unless it is tolerated, no label may be left undeclared; of
several, the first in order is reported. -/
def finish (leniency : Leniency) (name : Option String) (b : Builder) : Except Fault Process :=
  let process : Process :=
    { name, vars := b.vars, initial := b.initial, states := b.states,
      transitions := b.transitions }
  if leniency.unplacedLabels then .ok process
  else
    match b.unresolvedLabels with
    | [] => .ok process
    | label :: _ => .error (.unplacedLabel label)

end Builder

end ProtocolGraph
