import ProtocolGraph.Model.Basic
import ProtocolGraph.Statement.Graph

/-!
# Declarations

At top level a form declares a message or a process:

* `(defmessage [:name] M [[:fields] (field [:name] F) …])`
* `(defprocess [[:name] P] [:vars (v …)] statement …)`

`Declaration.ofForm` reads one, which is what `interpret` does with a list: `readMessage` is
`defmessage` and `readProcess` is `defprocess`. A process is read by drawing its body, statement by
statement, into an empty draft in which one scope is open and binds the variables.
-/

namespace ProtocolGraph

/-- What a form at top level declares. -/
inductive Declaration where
  /-- A message. -/
  | message (m : Message)
  /-- A process. -/
  | process (p : Process)
deriving DecidableEq

namespace Declaration

/-- The outcome of reading arguments, as an outcome of a declaration. -/
def reading {α : Type} (result : Except Form.Fault α) : Except Failure α :=
  result.mapError fun fault => .of (.argument fault)

/-- The outcome of an operation on a graph, as an outcome of a declaration. -/
def drawing {α : Type} (result : Except Draft.Fault α) : Except Failure α :=
  result.mapError fun fault => .of (.graph fault)

/-- The outcome, seen from outside a form of this name (`FormContext`). -/
def within {α : Type} (form : String) (result : Except Failure α) : Except Failure α :=
  result.mapError (Failure.within form)

/-! ## Messages -/

/-- The name of the field that a `field` form declares. -/
def readField (node : Node) : Except Failure String := do
  let f ← within "field" (reading (node.expectList >>= Form.ofNodes))
  if f.name ≠ "field" then throw (.of (.placement (.wrongForm "field" f.name)))
  within "field" do
    let (name, f) ← reading (f.named ":name")
    let name ← reading name.expectSymbol
    reading f.finish
    return name

/-- The names of the fields that the rest of a message form declares. The first may be introduced by
a keyword. -/
def readFields (f : Form) : Except Failure (List String) :=
  if f.isExhausted then .ok []
  else do
    let (first, f) ← within "field" (reading (f.named ":fields"))
    let first ← readField first
    let others ← f.arguments.mapM readField
    return first :: others

/-- The message that a form declares (`defmessage`). -/
def readMessage (f : Form) : Except Failure Message := do
  let (name, f) ← reading (f.named ":name")
  let name ← reading name.expectSymbol
  let fields ← readFields f
  return ⟨name, fields⟩

/-! ## Processes -/

/-- The name of the process, and the rest of the form. A keyword other than `:name` in front is no
name, and belongs to what follows. -/
def readName (f : Form) : Except Failure (Option String × Form) :=
  match f.arguments.head? with
  | some (.keyword ":name") => do
    let (name, f) ← reading (f.named ":name")
    let name ← reading name.expectSymbol
    return (some name, f)
  | some (.symbol name) => .ok (some name, { f with arguments := f.arguments.tail })
  | _ => .ok (none, f)

/-- Binds the symbols in the innermost scope. -/
def bindAll : List Node → Draft → Except Failure Draft
  | [], d => .ok d
  | n :: rest, d => do
    let name ← reading n.expectSymbol
    let (_, d) ← drawing (d.bind name)
    bindAll rest d

/-- A draft in which the variables of a process are bound, and the statements of its body. -/
def readVariables (f : Form) : Except Failure (Draft × List Node) :=
  let d := Draft.empty.openScope
  match f.skipKeyword ":vars" with
  | (false, f) => .ok (d, f.arguments)
  | (true, f) => do
    let (names, f) ← within ":vars" do
      let (list, f) ← reading f.positional
      let names ← reading list.expectList
      return (names, f)
    let d ← bindAll names d
    return (d, f.arguments)

/-- The process that a form declares (`defprocess`). -/
def readProcess (leniency : Leniency) (f : Form) : Except Failure Process := do
  let (name, f) ← readName f
  let (d, body) ← readVariables f
  let d ← (Statement.extendAll (body.map Statement.ofNode) d).result
  drawing (d.finish leniency name)

/-! ## Either -/

/-- The declaration that a form spells. -/
def ofForm (leniency : Leniency) (f : Form) : Except Failure Declaration :=
  if f.name = "defmessage" then within f.name ((readMessage f).map .message)
  else if f.name = "defprocess" then within f.name ((readProcess leniency f).map .process)
  else .error (.of (.placement (.unknownDeclaration f.name)))

/-- The declaration that the elements of a list spell. -/
def ofElements (leniency : Leniency) (elements : List Node) : Except Failure Declaration := do
  let f ← reading (Form.ofNodes elements)
  ofForm leniency f

/-- The message declared, if it is one. -/
def message? : Declaration → Option Message
  | message m => some m
  | process _ => none

/-- The process declared, if it is one. -/
def process? : Declaration → Option Process
  | message _ => none
  | process p => some p

end Declaration

end ProtocolGraph
