import ProtocolGraph.Failure

/-!
# Statements

The body of a process is a list of statements:

* a keyword places a label;
* `(!send [:message] M :field value …)` sends a message, `(?receive [:message] M)` receives one;
* `(goto label)` jumps to a label;
* `(if guard then [else])` branches, and each branch is one statement.

`Statement.ofNode` reads a node as a statement, which is the first half of `translate_body_form`. It
never fails: a form with one of these names whose arguments are wrong is a `misread` statement, and
a node that is no such form is a `foreign` one. Whether they do harm depends on where they stand.
-/

namespace ProtocolGraph

/-- A statement of a process body. -/
inductive Statement where
  /-- Names the place that control has reached. -/
  | label (name : String)
  /-- Sends a message with these values of its fields. -/
  | send (message : String) (valuation : Valuation)
  /-- Receives a message. -/
  | receive (message : String)
  /-- Goes on at a label. -/
  | jump (target : String)
  /-- Goes on with `consequent` if the guard holds. -/
  | branch (guard : Expression) (consequent : Statement)
  /-- Goes on with `consequent` if the guard holds and with `alternative` otherwise. -/
  | branchElse (guard : Expression) (consequent alternative : Statement)
  /-- A form of this name whose arguments are wrong. -/
  | misread (form : String) (cause : Cause)
  /-- What is no statement at all. -/
  | foreign (cause : Cause)
deriving DecidableEq

namespace Statement

/-! ## Arguments -/

/-- Reads pairs of a keyword and a value into a valuation, each keyword once. -/
def readPairs (v : Valuation) : List Node → Except Cause Valuation
  | [] => .ok v
  | .keyword key :: [] => .error (.argument (.missingValue key))
  | .keyword key :: value :: rest =>
    if (v.find? key).isSome then .error (.argument (.duplicateKeyword key))
    else
      match Expression.ofNode value with
      | .error kind => .error (.expression kind)
      | .ok e => readPairs (v.insert key e) rest
  | n :: _ => .error (.argument (.wrongKind .keyword n.kind))

/-- The message that a form names first, and the rest of the form. -/
def readMessage (f : Form) : Except Cause (String × Form) :=
  match f.named ":message" with
  | .error fault => .error (.argument fault)
  | .ok (n, f) =>
    match n.expectSymbol with
    | .error fault => .error (.argument fault)
    | .ok message => .ok (message, f)

/-- The arguments of `!send` (`send`): a message, and the values of its fields. -/
def readSend (f : Form) : Except Cause Statement :=
  match readMessage f with
  | .error cause => .error cause
  | .ok (message, f) => (readPairs ∅ f.arguments).map (.send message)

/-- The arguments of `?receive` (`receive`): a message. -/
def readReceive (f : Form) : Except Cause Statement :=
  match readMessage f with
  | .error cause => .error cause
  | .ok (message, f) => (f.finish.mapError .argument).map fun _ => .receive message

/-- The arguments of `goto` (`goto`): a label. -/
def readJump (f : Form) : Except Cause Statement :=
  match f.positional with
  | .error fault => .error (.argument fault)
  | .ok (n, f) =>
    match n.expectKeyword with
    | .error fault => .error (.argument fault)
    | .ok target => (f.finish.mapError .argument).map fun _ => .jump target

/-- The statement with this name, if its arguments could be read. -/
def orMisread (form : String) : Except Cause Statement → Statement
  | .ok s => s
  | .error cause => .misread form cause

/-- The statement that a form spells, other than `if`. -/
def ofForm (f : Form) : Statement :=
  if f.name = "!send" then orMisread f.name (readSend f)
  else if f.name = "?receive" then orMisread f.name (readReceive f)
  else if f.name = "goto" then orMisread f.name (readJump f)
  else if f.name = "let" ∨ f.name = "select" then
    .foreign (.placement (.unsupportedStatement f.name))
  else .foreign (.placement (.unknownStatement f.name))

/-- The statement with the guard that a node denotes. -/
def guarded (guard : Node) (statement : Expression → Statement) : Statement :=
  match Expression.ofNode guard with
  | .error kind => .misread "if" (.expression kind)
  | .ok e => statement e

/-! ## Reading -/

/-- The statement that a node denotes. The arguments of `if` are read here (`if_then_else`). -/
def ofNode : Node → Statement
  | .keyword name => .label name
  | .list [] => .foreign (.argument .emptyList)
  | .list (.symbol "if" :: arguments) =>
    match arguments with
    | [] => .misread "if" (.argument .endOfArguments)
    | [guard] => guarded guard fun _ => .misread "if" (.argument .endOfArguments)
    | [guard, consequent] => guarded guard fun e => .branch e (ofNode consequent)
    | [guard, consequent, alternative] =>
      guarded guard fun e => .branchElse e (ofNode consequent) (ofNode alternative)
    | guard :: _ :: _ :: extra =>
      guarded guard fun _ => .misread "if" (.argument (.trailing extra.length))
  | .list (.symbol name :: arguments) => ofForm ⟨name, arguments⟩
  | .list (head :: _) => .foreign (.argument (.wrongKind .symbol head.kind))
  | n => .foreign (.placement (.notStatement n.kind))

end Statement

end ProtocolGraph
