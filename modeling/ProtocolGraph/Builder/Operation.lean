import ProtocolGraph.Builder.Translate
import ProtocolGraph.Draft.Edit

/-!
# Operating a builder

A `Builder.Operation` is one operation on a builder as a piece of data, so that a history of a
builder is a list of operations. `Operation.apply` carries it out. It answers what the operation
answers or how it failed, and the builder that the operation itself leaves either way.
-/

namespace ProtocolGraph

open Edit (Answer)

/-- An operation on a builder. -/
inductive Builder.Operation where
  /-- Creates a state without a name (`alloc_unnamed_state`). -/
  | allocUnnamedState
  /-- Creates a state of a new name (`alloc_named_state`). -/
  | allocNamedState (name : String)
  /-- Looks up the state of a name (`state_for_name`). -/
  | stateForName (name : String)
  /-- Declares a label (`declare_label`). -/
  | declareLabel (name : String)
  /-- Finds or creates the state of a name (`jump_target`). -/
  | jumpTarget (name : String)
  /-- Records a transition (`add_transition`). -/
  | addTransition (t : Transition)
  /-- Asks for the initial state. -/
  | initial
  /-- Moves the end of the path (`set_current`). -/
  | setCurrent (current : Option StateId)
  /-- Opens a scope (`open_scope`). -/
  | openScope
  /-- Closes the innermost scope (`close_scope`). -/
  | closeScope
  /-- Binds a name in the innermost scope (`bind_variable`). -/
  | bindVariable (name : String)
  /-- Looks up the innermost binding of a name (`resolve_variable`). -/
  | resolveVariable (name : String)
  /-- Translates a node (`translate_body_form`). -/
  | translate (n : Node)

namespace Builder

/-- The outcome of an operation on the graph, with an answer made of what it hands out. -/
def report {α : Type} (answer : α → Answer) (outcome : Except Draft.Fault α × Builder) :
    Except Failure Answer × Builder :=
  ((outcome.1.mapError fun fault => .of (.graph fault)).map answer, outcome.2)

/-- Carries out the operation. -/
def Operation.apply : Operation → Builder → Except Failure Answer × Builder
  | allocUnnamedState, b => (.ok (.state (some b.allocUnnamedState.1)), b.allocUnnamedState.2)
  | allocNamedState name, b => report (.state <| some ·) (b.allocNamedState name)
  | stateForName name, b => (.ok (.state (b.stateForName name)), b)
  | declareLabel name, b => report (.state <| some ·) (b.declareLabel name)
  | jumpTarget name, b => report (.state <| some ·) (b.jumpTarget name)
  | addTransition t, b => (.ok .done, b.addTransition t)
  | initial, b => (.ok (.state (some b.initial)), b)
  | setCurrent current, b => (.ok .done, b.setCurrent current)
  | openScope, b => (.ok .done, b.openScope)
  | closeScope, b => report (fun _ => .done) b.closeScope
  | bindVariable name, b => report .variableId (b.bindVariable name)
  | resolveVariable name, b => report .variable (b.resolveVariable name, b)
  | translate n, b =>
    (((Building.translate n).outcome b).1.map fun _ => .done, ((Building.translate n).outcome b).2)

/-- The builder after a list of operations, whether they fail or not. -/
def run (ops : List Operation) (b : Builder) : Builder :=
  ops.foldl (fun b op => (op.apply b).2) b

theorem run_append (ops later : List Operation) (b : Builder) :
    run (ops ++ later) b = run later (run ops b) :=
  List.foldl_append

end Builder

end ProtocolGraph
