import ProtocolGraph.Proofs.Model.Rendering
import ProtocolGraph.Proofs.Statement.Reading

/-!
# Expressions as source text

A node has an expression when it can be told from its leaves, and the source text of that expression
spells the node again, if the node comes from a source text itself.

* `Node.Occurs`, `Node.leaves`: the nodes inside a node, and its leaves from left to right.
* `ofNode_eq_error_iff`: a node has no expression because of the leftmost leaf that denotes none.
* `render_ofNode`: an expression is written as the node that it is read from.
* `Node.Plain.wellSpelt`: without quoted texts a node is well spelt whatever is tolerated.
* **`text_reads_back`**: the source text of an expression, and of its negation, is read as the node
  that it came from.
-/

namespace ProtocolGraph

namespace Node

/-! ## Inside a node -/

/-- The first node is the second one or occurs in one of its elements. -/
inductive Occurs (n : Node) : Node → Prop
  | self : Occurs n n
  | inside {m elements} (member : m ∈ elements) (inner : Occurs n m) : Occurs n (.list elements)

mutual

/-- The leaves of the node, from left to right. -/
def leaves : Node → List Node
  | .list elements => leavesAll elements
  | n => [n]

/-- The leaves of the nodes, from left to right. -/
def leavesAll : List Node → List Node
  | [] => []
  | n :: rest => n.leaves ++ leavesAll rest

end

/-- The node is a quoted text or a keyword, which have no expression. -/
def isBarred (n : Node) : Bool :=
  n.kind == .string || n.kind == .keyword

variable {l : Leniency} {n m : Node}

theorem isBarred_eq_false_iff : n.isBarred = false ↔ n.kind ≠ .string ∧ n.kind ≠ .keyword := by
  simp [isBarred]

theorem Occurs.wellSpelt [Text.Alphabet] (h : n.Occurs m) (spelt : m.WellSpelt l) :
    n.WellSpelt l := by
  induction h with
  | self => exact spelt
  | inside member _ ih =>
    cases spelt with
    | list inner => exact ih (inner _ member)

/-- Without quoted texts it makes no difference what is tolerated. -/
theorem Plain.wellSpelt [Text.Alphabet] (h : n.Plain) (spelt : n.WellSpelt l) :
    n.WellSpelt .strict := by
  induction h with
  | symbol name =>
    cases spelt with
    | symbol spelt => exact .symbol spelt
  | int value => exact .int value
  | list _ ih =>
    cases spelt with
    | list inner => exact .list fun n hn => ih n hn (inner n hn)

end Node

namespace Expression

variable {l : Leniency} {n m : Node} {e : Expression} {kind : Node.Kind}

/-! ## Which nodes have an expression -/

/-- Among leaves that come one after the other, those in front count first. -/
theorem find?_leaves_append {first others : List Node} :
    ((first ++ others).find? Node.isBarred).map Node.kind =
      ((first.find? Node.isBarred).map Node.kind).or
        ((others.find? Node.isBarred).map Node.kind) := by
  rw [List.find?_append]
  cases first.find? Node.isBarred <;> rfl

mutual

/-- **A node has no expression because of the leftmost leaf** that denotes none. -/
theorem ofNode_eq_error_iff {kind : Node.Kind} : ∀ n : Node, ofNode n = .error kind ↔
    (n.leaves.find? Node.isBarred).map Node.kind = some kind
  | .list elements => by
    rw [ofNode, Outcome.map_eq_error_iff]
    exact ofNodes_eq_error_iff elements
  | .string _ | .keyword _ => by
    simp [ofNode, Node.leaves, Node.isBarred, Node.kind]
  | .int _ | .symbol _ => by
    simp [ofNode, Node.leaves, Node.isBarred, Node.kind]

theorem ofNodes_eq_error_iff {kind : Node.Kind} : ∀ ns : List Node, ofNodes ns = .error kind ↔
    ((Node.leavesAll ns).find? Node.isBarred).map Node.kind = some kind
  | [] => by simp [ofNodes, Node.leavesAll]
  | n :: ns => by
    have head : ∀ k, ofNode n = .error k ↔
        (n.leaves.find? Node.isBarred).map Node.kind = some k := fun k => ofNode_eq_error_iff n
    rw [Node.leavesAll, find?_leaves_append, ofNodes]
    cases read : ofNode n with
    | error k =>
      rw [(head k).mp read, Option.some_or]
      exact ⟨fun h => congrArg some (Except.error.inj h), fun h => Option.some.inj h ▸ rfl⟩
    | ok e =>
      have none : (n.leaves.find? Node.isBarred).map Node.kind = none := by
        refine Option.eq_none_iff_forall_ne_some.mpr fun k hk => ?_
        cases read.symm.trans ((head k).mpr hk)
      rw [none, Option.none_or, ← ofNodes_eq_error_iff ns]
      exact Outcome.map_eq_error_iff

end

theorem exists_ofNode_iff_leaves (n : Node) : (∃ e, ofNode n = .ok e) ↔
    ∀ leaf ∈ n.leaves, leaf.kind ≠ .string ∧ leaf.kind ≠ .keyword := by
  have none : (∃ e, ofNode n = .ok e) ↔ n.leaves.find? Node.isBarred = none := by
    cases read : ofNode n with
    | error kind =>
      have found := (ofNode_eq_error_iff n).mp read
      refine ⟨nofun, fun none => ?_⟩
      rw [none] at found
      cases found
    | ok e =>
      refine ⟨fun _ => ?_, fun _ => ⟨e, rfl⟩⟩
      refine Option.eq_none_iff_forall_ne_some.mpr fun leaf hleaf => ?_
      have found := congrArg (Option.map Node.kind) hleaf
      cases read.symm.trans ((ofNode_eq_error_iff n).mpr found)
  rw [none, List.find?_eq_none]
  simp only [Bool.not_eq_true, Node.isBarred_eq_false_iff]

/-! ## Writing what was read -/

theorem ofNodes_cons_eq_ok_iff {ns : List Node} {es : List Expression} :
    ofNodes (n :: ns) = .ok es ↔
      ∃ e es', ofNode n = .ok e ∧ ofNodes ns = .ok es' ∧ es = e :: es' := by
  rw [ofNodes]
  cases ofNode n with
  | error kind => simp
  | ok e =>
    rw [Outcome.map_eq_ok_iff]
    simp [eq_comm]

mutual

/-- **An expression is written as the node** that it is read from. -/
theorem render_ofNode : ∀ {n : Node} {e : Expression}, ofNode n = .ok e → e.render = n.render
  | .list elements, e, h => by
    obtain ⟨es, read, rfl⟩ := Outcome.map_eq_ok_iff.mp h
    rw [render, Node.render, renderAll_ofNodes read]
  | .int value, e, h | .symbol name, e, h => by
    cases h
    rfl

theorem renderAll_ofNodes : ∀ {ns : List Node} {es : List Expression}, ofNodes ns = .ok es →
    renderAll es = Node.renderAll ns
  | [], es, h => by
    cases h
    rfl
  | [n], es, h => by
    obtain ⟨e, es, read, others, rfl⟩ := ofNodes_cons_eq_ok_iff.mp h
    cases others
    exact render_ofNode read
  | n :: m :: ns, es, h => by
    obtain ⟨e, es, read, others, rfl⟩ := ofNodes_cons_eq_ok_iff.mp h
    have tail := renderAll_ofNodes others
    obtain ⟨e', es, -, -, rfl⟩ := ofNodes_cons_eq_ok_iff.mp others
    rw [renderAll, Node.renderAll, render_ofNode read, tail] <;> exact nofun

end

/-- What is read off the node of a negation. -/
theorem ofNode_negate (h : ofNode n = .ok e) :
    ofNode (.list [.symbol "not", n]) = .ok e.negate := by
  rw [ofNode, ofNodes, ofNode, ofNodes, h]
  rfl

section

variable [Text.Alphabet]

theorem nodesOfSource_text (spelt : n.WellSpelt .strict) (h : ofNode n = .ok e) (l : Leniency) :
    Model.nodesOfSource l e.text = .ok [n] := by
  rw [text, render_ofNode h]
  exact Model.nodesOfSource_render spelt l

theorem wellSpelt_negate (spelt : n.WellSpelt .strict) :
    (Node.list [.symbol "not", n]).WellSpelt .strict := by
  have word : Text.IsSymbol "not" := by apply Text.isSymbol_of_ascii <;> decide +kernel
  exact .list (List.forall_mem_cons.mpr ⟨.symbol word, List.forall_mem_singleton.mpr spelt⟩)

/-- **Expressions read back.** A node that occurs anywhere in the nodes of a source text has an
expression exactly if there is no quoted text and no keyword among its leaves, and otherwise the
kind of the leftmost such leaf is reported. The source text of the expression is read as this one
node, whatever is tolerated, which has the same expression again; and so it is with the negation of
the expression and the node `(not n)`. -/
theorem text_reads_back {s : String} {nodes : List Node}
    (read : Model.nodesOfSource l s = .ok nodes) (member : m ∈ nodes) (occurs : n.Occurs m) :
    ((∃ e, ofNode n = .ok e) ↔ ∀ leaf ∈ n.leaves, leaf.kind ≠ .string ∧ leaf.kind ≠ .keyword) ∧
    (∀ kind, ofNode n = .error kind ↔
      (n.leaves.find? Node.isBarred).map Node.kind = some kind) ∧
    ∀ e, ofNode n = .ok e → ∀ l',
      Model.nodesOfSource l' e.text = .ok [n] ∧
      Model.nodesOfSource l' e.negate.text = .ok [.list [.symbol "not", n]] ∧
      ofNode (.list [.symbol "not", n]) = .ok e.negate := by
  refine ⟨exists_ofNode_iff_leaves n, fun kind => ofNode_eq_error_iff n, fun e h l' => ?_⟩
  have plain := (exists_ofNode_iff n).mp ⟨e, h⟩
  have spelt := plain.wellSpelt (occurs.wellSpelt (Model.wellSpelt_of_nodesOfSource read m member))
  have negated := ofNode_negate h
  exact ⟨nodesOfSource_text spelt h l', nodesOfSource_text (wellSpelt_negate spelt) negated l',
    negated⟩

end

/-- A guard with a quote in a name, an empty list and the least integer, in front of a keyword. -/
theorem text_reads_back_guard : ∃ nodes m n e,
    Model.nodesOfSource .strict "(if (= a\"b (() -9223372036854775808)) :k)" = .ok nodes ∧
    m ∈ nodes ∧ n.Occurs m ∧ ofNode m = .error .keyword ∧ ofNode n = .ok e ∧
    e.negate.text = "(not (= a\"b (() -9223372036854775808)))" ∧
    Model.nodesOfSource .strict e.text = .ok [n] ∧
    Model.nodesOfSource .strict e.negate.text = .ok [.list [.symbol "not", n]] := by
  have read : Model.nodesOfSource .strict "(if (= a\"b (() -9223372036854775808)) :k)" =
      .ok [.list [.symbol "if", .list [.symbol "=", .symbol "a\"b",
        .list [.list [], .int Int64.minValue]], .keyword ":k"]] := by
    with_unfolding_all rfl
  have whole := text_reads_back read List.mem_cons_self .self
  have inner := text_reads_back read List.mem_cons_self
    (.inside (List.mem_cons_of_mem _ List.mem_cons_self) .self)
  obtain ⟨same, negated, -⟩ := inner.2.2 _ rfl .strict
  exact ⟨_, _, _, _, read, List.mem_cons_self,
    .inside (List.mem_cons_of_mem _ List.mem_cons_self) .self, (whole.2.1 _).mpr (by decide), rfl,
    by decide +kernel, same, negated⟩

end Expression

end ProtocolGraph
