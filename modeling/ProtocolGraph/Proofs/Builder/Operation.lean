import ProtocolGraph.Builder.Operation
import ProtocolGraph.Proofs.Builder.Translate

/-!
# Histories of builders

Every history of a builder is a history of a draft: each operation on the builder of a draft answers
what the edit of the draft answers, and leaves the builder of the draft that is left.

* `Builder.Operation.edit`: the edit of a draft that an operation on its builder is.
* `Builder.Operation.apply_builder`: one operation. **`Builder.run_eq`**: a whole history.
-/

namespace ProtocolGraph

theorem Statement.extendAll_singleton (s : Statement) (d : Draft) :
    extendAll [s] d = s.extend d := by
  show (s.extend d).andThen Attempt.done = s.extend d
  obtain ⟨e, _ | f⟩ := s.extend d <;> rfl

namespace Builder

open Edit (Answer)

/-- The edit of a draft that the operation on its builder is. -/
def Operation.edit : Operation → Edit
  | allocUnnamedState => .addUnnamed
  | allocNamedState name => .addNamed name
  | stateForName name => .findState name
  | declareLabel name => .place name
  | jumpTarget name => .reserve name
  | addTransition t => .connect t
  | initial => .initial
  | setCurrent current => .moveTo current
  | openScope => .openScope
  | closeScope => .closeScope
  | bindVariable name => .bind name
  | resolveVariable name => .resolve name
  | translate n => .draw [Statement.ofNode n]

/-- What is reported of an operation that leaves the draft alone if it fails. -/
theorem report_settled {α : Type} (answer : α → Answer) (d : Draft)
    (result : Except Draft.Fault (α × Draft)) : report answer (d.settled result) =
      ((Edit.settle d result fun (a, e) => (answer a, e)).1,
        (Edit.settle d result fun (a, e) => (answer a, e)).2.builder) := by
  cases result <;> rfl

/-- **An operation on a builder** is an edit of its draft. -/
theorem Operation.apply_builder (op : Operation) (d : Draft) :
    op.apply d.builder = ((op.edit.apply d).1, (op.edit.apply d).2.builder) := by
  cases op with
  | allocUnnamedState =>
    rw [apply, Draft.allocUnnamedState_builder]
    rfl
  | allocNamedState name => rw [apply, Draft.allocNamedState_builder, report_settled]; rfl
  | stateForName name =>
    rw [apply, Builder.stateForName, Draft.lookup_named]
    rfl
  | declareLabel name => rw [apply, Draft.declareLabel_builder, report_settled]; rfl
  | jumpTarget name =>
    rw [apply, Draft.jumpTarget_builder]
    rfl
  | closeScope =>
    rw [apply, Draft.closeScope_builder, report_settled]
    show _ = ((Edit.settle d d.closeScope _).1, (Edit.settle d d.closeScope _).2.builder)
    cases d.closeScope <;> rfl
  | bindVariable name => rw [apply, Draft.bindVariable_builder, report_settled]; rfl
  | resolveVariable name =>
    rw [apply, Draft.resolveVariable_builder]
    show _ = ((Edit.settle d (d.resolve name) _).1, (Edit.settle d (d.resolve name) _).2.builder)
    cases d.resolve name <;> rfl
  | translate n =>
    rw [apply, Building.outcome_translate, edit, Edit.apply, Statement.extendAll_singleton]
    obtain ⟨e, _ | f⟩ := (Statement.ofNode n).extend d <;> rfl
  | _ => rfl

/-- **A history of a builder** is a history of its draft. -/
theorem run_eq (ops : List Operation) (d : Draft) :
    run ops d.builder = (Edit.run (ops.map Operation.edit) d).builder := by
  induction ops generalizing d with
  | nil => rfl
  | cons op rest ih =>
    show run rest (op.apply d.builder).2 = _
    rw [Operation.apply_builder]
    exact ih _

end Builder

end ProtocolGraph
