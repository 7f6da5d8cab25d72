import ProtocolGraph.Declaration

/-!
# The model of a source text

`Model.ofSource` is the whole way from text to model (`compile_with_options`): tokens, nodes,
declarations. The first failure on the way is the answer, so a text that has no nodes fails whatever
it may declare, and of two declarations that fail the first counts.

Nodes at top level that are no lists declare nothing.
-/

namespace ProtocolGraph

/-- The elements of a list; other nodes have none. -/
def Node.elements? : Node → Option (List Node)
  | .list elements => some elements
  | _ => none

namespace Model

/-- The model of declarations, in their order. -/
def ofDeclarations (declarations : List Declaration) : Model where
  messages := declarations.filterMap Declaration.message?
  processes := declarations.filterMap Declaration.process?

/-- The model that nodes declare (`interpret`). -/
def ofNodes (leniency : Leniency) (nodes : List Node) : Except Failure Model :=
  ((nodes.filterMap Node.elements?).mapM (Declaration.ofElements leniency)).map ofDeclarations

variable [Text.Alphabet]

/-- The nodes of a source text. -/
def nodesOfSource (leniency : Leniency) (source : String) : Except Failure (List Node) :=
  match Token.scan leniency source with
  | .error fault => .error (.of (.token fault))
  | .ok tokens => (Node.ofTokens tokens).mapError fun fault => .of (.node fault)

/-- The model that a source text declares (`compile_with_options`). -/
def ofSource (leniency : Leniency) (source : String) : Except Failure Model :=
  match nodesOfSource leniency source with
  | .error failure => .error failure
  | .ok nodes => ofNodes leniency nodes

end Model

end ProtocolGraph
