import ProtocolGraph.Draft.Basic
import ProtocolGraph.Form.Basic
import ProtocolGraph.Node.Reader
import ProtocolGraph.Token.Scan

/-!
# Failures

A `Failure` is a `CompileError`: a cause and the names of the forms inside which it arose, outermost
first. Its text reads as a call stack that ends in the text of the cause.
-/

namespace ProtocolGraph

/-- Why a form has no meaning where it stands (`DispatchError`). -/
inductive Misplacement where
  /-- No declaration has this name. -/
  | unknownDeclaration (name : String)
  /-- No statement has this name. -/
  | unknownStatement (name : String)
  /-- A statement of this name is reserved and has no meaning. -/
  | unsupportedStatement (name : String)
  /-- A node of this kind is no statement. -/
  | notStatement (kind : Node.Kind)
  /-- A form of another name is expected. -/
  | wrongForm (expected found : String)
deriving DecidableEq

/-- The text of the misplacement. -/
def Misplacement.message : Misplacement → String
  | .unknownDeclaration name => s!"unknown fn: {name}"
  | .unknownStatement name => s!"unknown fn call {name}"
  | .unsupportedStatement name => s!"{name} is not supported in a process body"
  | .notStatement kind => s!"unrecognized expression at body: {kind.name}"
  | .wrongForm expected found => s!"expected '{expected}', got: {found}"

/-- Why a source text has no model. -/
inductive Cause where
  /-- The text has no tokens. -/
  | token (fault : Token.Fault)
  /-- The tokens have no nodes. -/
  | node (fault : Node.Fault)
  /-- A leaf of this kind stands in an expression. -/
  | expression (kind : Node.Kind)
  /-- The arguments of a form are wrong. -/
  | argument (fault : Form.Fault)
  /-- The graph of a process is wrong. -/
  | graph (fault : Draft.Fault)
  /-- A form has no meaning where it stands. -/
  | placement (fault : Misplacement)
deriving DecidableEq

namespace Cause

/-- The stage of the work at which the cause arises (`kind`). -/
def stage : Cause → String
  | token _ => "lex"
  | node _ => "parse"
  | expression _ => "translation"
  | argument _ => "argument"
  | graph _ => "graph"
  | placement _ => "dispatch"

/-- The text of the cause. -/
def message : Cause → String
  | token fault => fault.message
  | node fault => fault.message
  | expression kind => s!"unhandled node kind: {kind.name}"
  | argument fault => fault.message
  | graph fault => fault.message
  | placement fault => fault.message

end Cause

/-- A cause and the forms inside which it arose. -/
structure Failure where
  /-- The names of the forms, outermost first. -/
  forms : List String := []
  /-- The cause. -/
  cause : Cause
deriving DecidableEq

namespace Failure

/-- The failure of a form's own, inside no other. -/
def of (cause : Cause) : Failure where
  cause

/-- The same failure, seen from outside a form of this name (`in_form`). -/
def within (form : String) (f : Failure) : Failure :=
  { f with forms := form :: f.forms }

/-- The text of the failure: its forms from outside in, and its cause. -/
def message (f : Failure) : String :=
  f.forms.foldr (fun form inner => s!"in {form}: {inner}") f.cause.message

/-- The JSON form of the failure (`to_json_value`). -/
def toJson (f : Failure) : Json :=
  .object [("forms", .array (f.forms.map .string)), ("kind", .string f.cause.stage),
    ("message", .string f.cause.message)]

theorem message_within (form : String) (f : Failure) :
    (f.within form).message = s!"in {form}: {f.message}" := rfl

end Failure

end ProtocolGraph
