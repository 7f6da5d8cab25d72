import ProtocolGraph.Statement.Graph

/-!
# Editing a draft

An `Edit` is one operation on a draft as a piece of data, so that a history of a draft is a list of
edits. `Edit.apply` carries it out. It answers what the operation answers or how it failed, and the
draft that is left either way.

Only drawing statements can fail and yet change the draft.
-/

namespace ProtocolGraph

/-- An operation on a draft. -/
inductive Edit where
  /-- Creates a state without a name. -/
  | addUnnamed
  /-- Creates a state of a new name. -/
  | addNamed (name : String)
  /-- Looks up the state of a name. -/
  | findState (name : String)
  /-- Places a label. -/
  | place (name : String)
  /-- Finds or creates the state of a name. -/
  | reserve (name : String)
  /-- Draws a transition. -/
  | connect (t : Transition)
  /-- Asks for the initial state. -/
  | initial
  /-- Moves the end of the path. -/
  | moveTo (current : Option StateId)
  /-- Opens a scope. -/
  | openScope
  /-- Closes the innermost scope. -/
  | closeScope
  /-- Binds a name in the innermost scope. -/
  | bind (name : String)
  /-- Looks up the innermost binding of a name. -/
  | resolve (name : String)
  /-- Draws statements, up to the first that fails (`translate_body_form` on each). -/
  | draw (statements : List Statement)

namespace Edit

/-- What an operation answers. -/
inductive Answer where
  /-- Nothing. -/
  | done
  /-- A state, if there is one. -/
  | state (id : Option StateId)
  /-- The number of a variable. -/
  | variableId (id : VariableId)
  /-- A variable. -/
  | variable (v : Variable)
deriving DecidableEq

/-- The outcome of an operation that leaves the draft alone if it fails. -/
def settle {α : Type} (d : Draft) (result : Except Draft.Fault α) (next : α → Answer × Draft) :
    Except Failure Answer × Draft :=
  match result with
  | .error fault => (.error (.of (.graph fault)), d)
  | .ok a =>
    let (answer, d) := next a
    (.ok answer, d)

/-- Carries out the operation. -/
def apply : Edit → Draft → Except Failure Answer × Draft
  | addUnnamed, d => (.ok (.state (some d.addUnnamed.1)), d.addUnnamed.2)
  | addNamed name, d => settle d (d.addNamed name) fun (id, d) => (.state (some id), d)
  | findState name, d => (.ok (.state (d.stateNamed? name)), d)
  | place name, d => settle d (d.place name) fun (id, d) => (.state (some id), d)
  | reserve name, d => (.ok (.state (some (d.reserve name).1)), (d.reserve name).2)
  | connect t, d => (.ok .done, d.connect t)
  | initial, d => (.ok (.state (some Draft.initial)), d)
  | moveTo current, d => (.ok .done, d.moveTo current)
  | openScope, d => (.ok .done, d.openScope)
  | closeScope, d => settle d d.closeScope fun d => (.done, d)
  | bind name, d => settle d (d.bind name) fun (id, d) => (.variableId id, d)
  | resolve name, d => settle d (d.resolve name) fun v => (.variable v, d)
  | draw statements, d =>
    let a := Statement.extendAll statements d
    match a.failure with
    | none => (.ok .done, a.draft)
    | some f => (.error f, a.draft)

/-- The draft after a list of operations, whether they fail or not. -/
def run (edits : List Edit) (d : Draft) : Draft :=
  edits.foldl (fun d e => (e.apply d).2) d

variable {d : Draft} {name : String} {fault : Draft.Fault}

theorem apply_bind_of_ok {r : VariableId × Draft} (h : d.bind name = .ok r) :
    (bind name).apply d = (.ok (.variableId r.1), r.2) := by
  rw [apply, h, settle]

theorem apply_bind_of_error (h : d.bind name = .error fault) :
    (bind name).apply d = (.error (.of (.graph fault)), d) := by
  rw [apply, h, settle]

theorem apply_place_of_ok {r : StateId × Draft} (h : d.place name = .ok r) :
    (place name).apply d = (.ok (.state (some r.1)), r.2) := by
  rw [apply, h, settle]

theorem apply_place_of_error (h : d.place name = .error fault) :
    (place name).apply d = (.error (.of (.graph fault)), d) := by
  rw [apply, h, settle]

theorem run_append (edits later : List Edit) (d : Draft) :
    run (edits ++ later) d = run later (run edits d) :=
  List.foldl_append

end Edit

end ProtocolGraph
