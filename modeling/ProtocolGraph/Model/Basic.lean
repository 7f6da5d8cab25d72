import ProtocolGraph.Message
import ProtocolGraph.Process

/-!
# Models

A `Model` is what a source text declares: messages and processes, each in the order of declaration.
-/

namespace ProtocolGraph

/-- The messages and processes of a source text. -/
structure Model where
  /-- The messages. -/
  messages : List Message := []
  /-- The processes. -/
  processes : List Process := []
deriving DecidableEq

/-- The first message with this name. -/
def Model.message? (m : Model) (name : String) : Option Message :=
  m.messages.find? (·.name == name)

end ProtocolGraph
