import ProtocolGraph.Builder.Translate

/-!
# Building a process

`Building.process` builds the process that a form declares (`defprocess`). The name is read first.
Then one scope is opened in which the variables are bound, one after the other, and the statements
of the body are translated up to the first that fails.
-/

namespace ProtocolGraph.Building

open Builder

/-- The name of the process, and the call that is left. A keyword other than `:name` in front is no
name, and belongs to what follows. -/
def processName (call : Call) : Except Cause (Option String × Call) :=
  match call.peek with
  | some (.keyword ":name") =>
    (content (call.named ":name").1 Node.expectSymbol).map (some ·, (call.named ":name").2)
  | some (.symbol _) =>
    (content call.positional.1 Node.expectSymbol).map (some ·, call.positional.2)
  | _ => .ok (none, call)

/-- Binds the symbols in the innermost scope, up to the first node that is no symbol or cannot be
bound. -/
def bindSymbols : List Node → Building Unit
  | [] => pure ()
  | n :: rest => do
    let name ← known (n.expectSymbol.mapError .argument)
    let _ ← operation (bindVariable name)
    bindSymbols rest

/-- Binds the variables of the process, if there are any. What remains is its body. -/
def processVariables (call : Call) : Building (List Node) :=
  match call.skipKeyword ":vars" with
  | (false, call) => pure call.unread.arguments
  | (true, call) => do
    let names ← inForm ":vars" (known (content call.positional.1 Node.expectList))
    bindSymbols names
    return call.positional.2.unread.arguments

/-- The process that a form declares. -/
def process (leniency : Leniency) (call : Call) : Building Process := do
  let (name, call) ← known (processName call)
  modify openScope
  let body ← processVariables call
  translateAll body
  operation fun b => (b.finish leniency name, b)

end ProtocolGraph.Building
