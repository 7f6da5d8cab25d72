import ProtocolGraph.Failure

/-!
# Walking through forms

A `Walk` goes through the arguments of a form step by step and may enter an argument that is a form
itself. It holds the forms entered, innermost first, each with the arguments still unread in it. A
`Step` is one reading operation on the innermost form as a piece of data.

A lookup that fails reads nothing. One that succeeds has read the argument, also when its content is
then of the wrong kind.
-/

namespace ProtocolGraph.Form

/-- What to make of an argument: the accessors of `Param`. -/
inductive Reading where
  /-- The node as it is. -/
  | node
  /-- The text of a string. -/
  | string
  /-- The name of a symbol. -/
  | symbol
  /-- The name of a keyword. -/
  | keyword
  /-- The elements of a list. -/
  | list
  /-- An expression. -/
  | expression
  /-- A form, which is entered. -/
  | form
deriving DecidableEq

/-- What a step answers. -/
inductive Answer where
  /-- Nothing. -/
  | done
  /-- A piece of text. -/
  | text (s : String)
  /-- A node, if there is one. -/
  | node (n : Option Node)
  /-- Nodes. -/
  | nodes (ns : List Node)
  /-- Yes or no. -/
  | flag (b : Bool)
  /-- A form that has been entered. -/
  | form (f : Form)

/-- Makes something of an argument. -/
def Reading.read : Reading → Node → Except Cause Answer
  | node, n => .ok (.node (some n))
  | string, n => (n.expectString.mapError .argument).map .text
  | symbol, n => (n.expectSymbol.mapError .argument).map .text
  | keyword, n => (n.expectKeyword.mapError .argument).map .text
  | list, n => (n.expectList.mapError .argument).map .nodes
  | expression, n => ((Expression.ofNode n).mapError .expression).map fun e => .text e.text
  | form, n => ((n.expectList >>= ofNodes).mapError .argument).map .form

/-- One step of a walk. -/
inductive Step where
  /-- Reads an argument that a keyword may introduce. -/
  | named (keyword : String) (reading : Reading)
  /-- Reads the next argument. -/
  | positional (reading : Reading)
  /-- Reads the next argument, if one is left. -/
  | optional
  /-- Looks at the next argument. -/
  | peek
  /-- Reads the keyword, if it comes next. -/
  | skipKeyword (keyword : String)
  /-- Reads all arguments that are left. -/
  | remaining
  /-- Fails if an argument is left. -/
  | finish
  /-- Asks for the name of the form. -/
  | name
  /-- Leaves the innermost form, unless it is the only one. -/
  | leave

/-- The forms entered, each with its unread arguments. -/
structure Walk where
  /-- The innermost form. -/
  inner : Form
  /-- The forms around it, innermost first. -/
  outer : List Form := []

namespace Walk

/-- The walk with another innermost form. -/
def setInner (w : Walk) (f : Form) : Walk :=
  { w with inner := f }

/-- Makes something of an argument that was looked up, and leaves the form that is left then. -/
def take (w : Walk) (reading : Reading) (found : Except Fault (Node × Form)) :
    Except Cause Answer × Walk :=
  match found with
  | .error fault => (.error (.argument fault), w)
  | .ok (n, f) =>
    match reading.read n with
    | .ok (.form inner) => (.ok (.form inner), ⟨inner, f :: w.outer⟩)
    | answer => (answer, w.setInner f)

/-- Takes one step. -/
def step (w : Walk) : Step → Except Cause Answer × Walk
  | .named keyword reading => w.take reading (w.inner.named keyword)
  | .positional reading => w.take reading w.inner.positional
  | .optional => (.ok (.node w.inner.optional.1), w.setInner w.inner.optional.2)
  | .peek => (.ok (.node w.inner.arguments.head?), w)
  | .skipKeyword keyword =>
    (.ok (.flag (w.inner.skipKeyword keyword).1), w.setInner (w.inner.skipKeyword keyword).2)
  | .remaining => (.ok (.nodes w.inner.remaining.1), w.setInner w.inner.remaining.2)
  | .finish => ((w.inner.finish.mapError .argument).map fun _ => .done, w)
  | .name => (.ok (.text w.inner.name), w)
  | .leave =>
    match w.outer with
    | [] => (.ok (.flag false), w)
    | f :: outer => (.ok (.flag true), ⟨f, outer⟩)

end Walk

end ProtocolGraph.Form
