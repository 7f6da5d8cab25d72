import ProtocolGraph.Json
import ProtocolGraph.Model.Basic

/-!
# Models as JSON

Each part of a model has a JSON form, written by `toJson` (`to_json`) and read by `ofJson`, as the
attributes on its type say:

* a structure is an object with a member for each field, and a field without a value is left out
  (`skip_serializing_if`);
* an action is an object that names its kind, `send` or `receive`, and its message (`tag` and
  `content`);
* an expression is an object that names its type, `ref`, `int` or `list`, and its value (likewise);
* a valuation is an object with a member for each keyword.

Numbers of states and variables (`StateId`, `VariableId`) are natural numbers below `2 ^ 32`.
-/

namespace ProtocolGraph

/-- The numbers of states and variables are below this one, which is `2 ^ 32`. -/
def idBound : Nat := 0x100000000

/-- A number of a state or a variable. -/
def Json.id? : Json → Option Nat :=
  Json.natBelow? idBound

/-! ## Expressions -/

mutual

/-- The JSON form of an expression. -/
def Expression.toJson : Expression → Json
  | .reference name => .object [("type", .string "ref"), ("value", .string name)]
  | .int value => .object [("type", .string "int"), ("value", .int value.toInt)]
  | .list elements =>
    .object [("type", .string "list"), ("value", .array (Expression.toJsonAll elements))]

/-- The JSON forms of expressions. -/
def Expression.toJsonAll : List Expression → List Json
  | [] => []
  | e :: rest => e.toJson :: Expression.toJsonAll rest

end

mutual

/-- The expression with this JSON form. -/
def Expression.ofJson [Json.Access] (j : Json) : Option Expression :=
  match (j.member? "type").bind Json.string?, _h : j.member? "value" with
  | some "ref", some value => value.string?.map .reference
  | some "int", some value => value.int64?.map .int
  | some "list", some (.array items) => (Expression.ofJsonAll items).map .list
  | _, _ => none
termination_by sizeOf j
decreasing_by
  have := Json.sizeOf_lt_of_member? _h
  simp only [Json.array.sizeOf_spec] at this
  omega

/-- The expressions with these JSON forms. -/
def Expression.ofJsonAll [Json.Access] (items : List Json) : Option (List Expression) :=
  match items with
  | [] => some []
  | j :: rest =>
    match Expression.ofJson j with
    | none => none
    | some e => (Expression.ofJsonAll rest).map (e :: ·)
termination_by sizeOf items

end

/-! ## Processes -/

/-- The JSON form of a valuation. -/
def Valuation.toJson (v : Valuation) : Json :=
  .object (v.entries.map fun e => (e.1, e.2.toJson))

/-- The valuation with this JSON form. -/
def Valuation.ofJson [Json.Access] (j : Json) : Option Valuation := do
  let members ← j.object?
  let entries ← members.mapM fun m => (Expression.ofJson m.2).map fun e => (m.1, e)
  return .ofList entries

/-- The JSON form of an action. -/
def Action.toJson : Action → Json
  | .send message => .object [("kind", .string "send"), ("message", .string message)]
  | .receive message => .object [("kind", .string "receive"), ("message", .string message)]

/-- The action with this JSON form. -/
def Action.ofJson [Json.Access] (j : Json) : Option Action :=
  match j.required? "kind" Json.string?, j.required? "message" Json.string? with
  | some "send", some message => some (.send message)
  | some "receive", some message => some (.receive message)
  | _, _ => none

/-- The JSON form of a state. -/
def State.toJson (s : State) : Json :=
  .object (("id", .int s.id) :: Json.optional "name" .string s.name)

/-- The state with this JSON form. -/
def State.ofJson [Json.Access] (j : Json) : Option State := do
  return {
    id := ← j.required? "id" Json.id?
    name := ← j.optional? "name" Json.string? }

/-- The JSON form of a transition. -/
def Transition.toJson (t : Transition) : Json :=
  .object (("from", .int t.source) :: ("to", .int t.target) ::
    (Json.optional "action" Action.toJson t.label.action ++
      (Json.optional "valuation" Valuation.toJson t.label.valuation ++
        Json.optional "guard" Expression.toJson t.label.guard)))

/-- The transition with this JSON form. -/
def Transition.ofJson [Json.Access] (j : Json) : Option Transition := do
  return {
    source := ← j.required? "from" Json.id?
    target := ← j.required? "to" Json.id?
    label := {
      action := ← j.optional? "action" Action.ofJson
      valuation := ← j.optional? "valuation" Valuation.ofJson
      guard := ← j.optional? "guard" Expression.ofJson } }

/-- The JSON form of a variable. -/
def Variable.toJson (v : Variable) : Json :=
  .object [("id", .int v.id), ("name", .string v.name)]

/-- The variable with this JSON form. -/
def Variable.ofJson [Json.Access] (j : Json) : Option Variable := do
  return {
    id := ← j.required? "id" Json.id?
    name := ← j.required? "name" Json.string? }

/-- The JSON form of a process. -/
def Process.toJson (p : Process) : Json :=
  .object (Json.optional "name" .string p.name ++
    [("vars", .array (p.vars.map Variable.toJson)),
      ("initial", .int p.initial),
      ("states", .array (p.states.map State.toJson)),
      ("transitions", .array (p.transitions.map Transition.toJson))])

/-- The process with this JSON form. -/
def Process.ofJson [Json.Access] (j : Json) : Option Process := do
  return {
    name := ← j.optional? "name" Json.string?
    vars := ← j.required? "vars" (Json.array? Variable.ofJson)
    initial := ← j.required? "initial" Json.id?
    states := ← j.required? "states" (Json.array? State.ofJson)
    transitions := ← j.required? "transitions" (Json.array? Transition.ofJson) }

/-! ## Messages and models -/

/-- The JSON form of a message. -/
def Message.toJson (m : Message) : Json :=
  .object [("name", .string m.name), ("fields", .array (m.fields.map .string))]

/-- The message with this JSON form. -/
def Message.ofJson [Json.Access] (j : Json) : Option Message := do
  return {
    name := ← j.required? "name" Json.string?
    fields := ← j.required? "fields" (Json.array? Json.string?) }

/-- The JSON form of a model. -/
def Model.toJson (m : Model) : Json :=
  .object [("messages", .array (m.messages.map Message.toJson)),
    ("processes", .array (m.processes.map Process.toJson))]

/-- The model with this JSON form. -/
def Model.ofJson [Json.Access] (j : Json) : Option Model := do
  return {
    messages := ← j.required? "messages" (Json.array? Message.ofJson)
    processes := ← j.required? "processes" (Json.array? Process.ofJson) }

end ProtocolGraph
