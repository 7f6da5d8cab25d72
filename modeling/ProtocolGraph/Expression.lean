import ProtocolGraph.Node.Basic
import ProtocolGraph.Text.Numeral

/-!
# Expressions

An `Expression` stands where a transition has a guard or a field of a message has its value. It is
kept as it was written, and never evaluated: a reference, an integer, or a list of expressions.

* `Expression.ofNode` reads a node. Quoted texts and keywords have no expression, at any depth; the
  answer is then the kind of the leftmost such leaf.
* `Expression.toNode` is the node that an expression is read from (`ofNode_toNode`).
* `Expression.render` writes the expression as source text.
-/

namespace ProtocolGraph

/-- An expression, unevaluated. -/
inductive Expression where
  /-- A name. -/
  | reference (name : String)
  /-- An integer. -/
  | int (value : Int64)
  /-- A list of expressions. -/
  | list (elements : List Expression)

namespace Expression

/-- The expression `(not e)` (`negate`). -/
def negate (e : Expression) : Expression :=
  .list [.reference "not", e]

/-! ## Reading -/

mutual

/-- The expression that a node denotes, or the kind of its leftmost leaf that denotes none
(`to_expression`). -/
def ofNode : Node → Except Node.Kind Expression
  | .list elements => (ofNodes elements).map .list
  | .int value => .ok (.int value)
  | .symbol name => .ok (.reference name)
  | .string _ => .error .string
  | .keyword _ => .error .keyword

/-- The expressions that nodes denote. -/
def ofNodes : List Node → Except Node.Kind (List Expression)
  | [] => .ok []
  | n :: rest =>
    match ofNode n with
    | .error kind => .error kind
    | .ok e => (ofNodes rest).map (e :: ·)

end

mutual

/-- The node that denotes the expression. -/
def toNode : Expression → Node
  | .reference name => .symbol name
  | .int value => .int value
  | .list elements => .list (toNodes elements)

/-- The nodes that denote the expressions. -/
def toNodes : List Expression → List Node
  | [] => []
  | e :: rest => e.toNode :: toNodes rest

end

mutual

theorem ofNode_toNode : ∀ e : Expression, ofNode e.toNode = .ok e
  | .reference _ | .int _ => rfl
  | .list elements => by
    rw [toNode, ofNode, ofNodes_toNodes elements]
    rfl

theorem ofNodes_toNodes : ∀ es : List Expression, ofNodes (toNodes es) = .ok es
  | [] => rfl
  | e :: es => by
    rw [toNodes, ofNodes, ofNode_toNode e]
    exact congrArg (Except.map (e :: ·)) (ofNodes_toNodes es)

end

/-! ## Writing -/

mutual

/-- The source text of the expression (the `Display` of `Expression`). -/
def render : Expression → List Char
  | .reference name => name.toList
  | .int value => Text.decimal value.toInt
  | .list elements => '(' :: (renderAll elements ++ [')'])

/-- The source texts of the expressions, with a space between each two. -/
def renderAll : List Expression → List Char
  | [] => []
  | [e] => e.render
  | e :: rest => e.render ++ ' ' :: renderAll rest

end

/-- The source text of the expression, as a string. -/
def text (e : Expression) : String :=
  String.ofList e.render

/-! ## Equality -/

mutual

/-- The expressions are the same. -/
def same : Expression → Expression → Bool
  | .reference s, .reference t => s == t
  | .int m, .int n => m == n
  | .list ds, .list es => sameAll ds es
  | _, _ => false

/-- The expressions are pairwise the same, and as many. -/
def sameAll : List Expression → List Expression → Bool
  | [], [] => true
  | d :: ds, e :: es => same d e && sameAll ds es
  | _, _ => false

end

mutual

theorem same_self : ∀ e : Expression, same e e = true
  | .reference _ | .int _ => by simp [same]
  | .list es => by
    rw [same]
    exact sameAll_self es

theorem sameAll_self : ∀ es : List Expression, sameAll es es = true
  | [] => rfl
  | e :: es => by
    rw [sameAll, same_self e, sameAll_self es]
    rfl

end

mutual

theorem eq_of_same : ∀ {d e : Expression}, same d e = true → d = e
  | .reference _, e, h | .int _, e, h => by cases e <;> simp_all [same]
  | .list ds, e, h => by
    cases e with
    | list es => exact congrArg Expression.list (eq_of_sameAll (by rwa [same] at h))
    | reference _ | int _ => simp [same] at h

theorem eq_of_sameAll : ∀ {ds es : List Expression}, sameAll ds es = true → ds = es
  | [], [], _ => rfl
  | d :: ds, e :: es, h => by
    rw [sameAll, Bool.and_eq_true] at h
    rw [eq_of_same h.1, eq_of_sameAll h.2]
  | [], _ :: _, h | _ :: _, [], h => by simp [sameAll] at h

end

instance : DecidableEq Expression := fun d e =>
  decidable_of_iff (same d e = true) ⟨eq_of_same, fun h => h ▸ same_self d⟩

end Expression

end ProtocolGraph
