import ProtocolGraph.Valuation

/-!
# Process graphs

A `Process` is a labelled transition system. Its states have numbers and some have names; its
transitions say what is sent or received on the way, with which values, and under which guard.
Everything is listed in the order in which it came about.
-/

namespace ProtocolGraph

/-- The number of a state. -/
abbrev StateId := Nat

/-- The number of a variable. -/
abbrev VariableId := Nat

/-- The written form of a state's number (the `Display` of `StateId`). -/
def StateId.text (id : StateId) : String :=
  "s" ++ String.ofList (Text.decimal id)

/-- A state. The named ones can be jumped to. -/
structure State where
  /-- The number. -/
  id : StateId
  /-- The name, if there is one. -/
  name : Option String := none
deriving DecidableEq

/-- The state has a name. -/
def State.isNamed (s : State) : Bool :=
  s.name.isSome

/-- What happens on a transition. -/
inductive Action where
  /-- A message of this name is sent. -/
  | send (message : String)
  /-- A message of this name is received. -/
  | receive (message : String)
deriving DecidableEq

/-- What a transition says. One that says nothing is taken silently. -/
structure Label where
  /-- What is sent or received. -/
  action : Option Action := none
  /-- The values of the fields sent. -/
  valuation : Option Valuation := none
  /-- The condition. -/
  guard : Option Expression := none
deriving DecidableEq

/-- A transition between two states. -/
structure Transition where
  /-- The state that it leaves. -/
  source : StateId
  /-- The state that it enters. -/
  target : StateId
  /-- What it says. -/
  label : Label := {}
deriving DecidableEq

namespace Transition

/-- The name of the message sent, if one is. -/
def sent? (t : Transition) : Option String :=
  match t.label.action with
  | some (.send message) => some message
  | _ => none

/-- The name of the message received, if one is. -/
def received? (t : Transition) : Option String :=
  match t.label.action with
  | some (.receive message) => some message
  | _ => none

end Transition

/-- A variable of a process. -/
structure Variable where
  /-- The number. -/
  id : VariableId
  /-- The name. -/
  name : String
deriving DecidableEq

/-- A process graph. -/
structure Process where
  /-- The name, if the process has one. -/
  name : Option String := none
  /-- The variables. -/
  vars : List Variable
  /-- The state in which the process starts. -/
  initial : StateId
  /-- The states. -/
  states : List State
  /-- The transitions. -/
  transitions : List Transition
deriving DecidableEq

namespace Process

/-- The first state with this number (`state`). -/
def state? (p : Process) (id : StateId) : Option State :=
  p.states.find? (·.id == id)

/-- The first state with this name (`state_named`). -/
def stateNamed? (p : Process) (name : String) : Option State :=
  p.states.find? (·.name == some name)

/-- The transitions that leave a state, in their order (`transitions_from`). -/
def transitionsFrom (p : Process) (id : StateId) : List Transition :=
  p.transitions.filter (·.source == id)

end Process

end ProtocolGraph
