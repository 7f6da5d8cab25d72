/-!
# Nodes

Source text denotes a forest of `Node`s: lists, and leaves of four kinds. A node carries no place
and no meaning; the forms of the language are told apart by what their lists hold.
-/

namespace ProtocolGraph

/-- A piece of syntax. -/
inductive Node where
  /-- A list in parentheses. -/
  | list (elements : List Node)
  /-- A quoted text, with its quotes. -/
  | string (text : String)
  /-- An integer. -/
  | int (value : Int64)
  /-- A word that starts with a colon, colon included. -/
  | keyword (name : String)
  /-- Any other word. -/
  | symbol (name : String)

namespace Node

/-- The kind of a node (`NodeKind`). -/
inductive Kind where
  /-- A list. -/
  | list
  /-- A quoted text. -/
  | string
  /-- An integer. -/
  | int
  /-- A keyword. -/
  | keyword
  /-- A symbol. -/
  | symbol
deriving DecidableEq

/-- The kind of the node. -/
def kind : Node → Kind
  | list _ => .list
  | string _ => .string
  | int _ => .int
  | keyword _ => .keyword
  | symbol _ => .symbol

/-- The name of the kind. -/
def Kind.name : Kind → String
  | .list => "list"
  | .string => "string"
  | .int => "int"
  | .keyword => "keyword"
  | .symbol => "symbol"

/-- Induction on a node: what holds of the leaves, and of a list whenever it holds of each of its
elements, holds of every node. -/
@[elab_as_elim] theorem induction {motive : Node → Prop}
    (list : ∀ elements, (∀ n ∈ elements, motive n) → motive (.list elements))
    (string : ∀ text, motive (.string text)) (int : ∀ value, motive (.int value))
    (keyword : ∀ name, motive (.keyword name)) (symbol : ∀ name, motive (.symbol name)) :
    ∀ n : Node, motive n
  | .list elements => list elements fun n _ => induction list string int keyword symbol n
  | .string text => string text
  | .int value => int value
  | .keyword name => keyword name
  | .symbol name => symbol name
termination_by n => sizeOf n
decreasing_by
  have := List.sizeOf_lt_of_mem ‹n ∈ elements›
  simp only [Node.list.sizeOf_spec]
  omega

end Node

end ProtocolGraph
