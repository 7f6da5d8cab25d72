import ProtocolGraph.Proofs.Declaration.Message
import ProtocolGraph.Proofs.Declaration.Respelt
import ProtocolGraph.Proofs.Statement.History

/-!
# The operations that read a process

Reading a form that declares a process is a history of the draft, like drawing a statement. A
history that breaks off shows the draft as it is in the midst of the reading.

* `Declaration.edits`: the operations on the draft when a form is read that declares a process, up
  to the first that fails.
* `Declaration.run_edits` and `Declaration.finish_run_edits`: they lead to the draft that is drawn
  and completed.
-/

namespace ProtocolGraph

open Edit Outcome

namespace Declaration

/-- The operations that bind symbols, up to the first node that cannot be bound. -/
def bindEdits : List Node → Draft → List Edit
  | .symbol name :: rest, d =>
    .bind name :: match d.bind name with
      | .error _ => []
      | .ok (_, e) => bindEdits rest e
  | _, _ => []

/-- The operations that bind the variables of a process. -/
def variableEdits (f : Form) : List Edit :=
  match f.arguments with
  | .keyword ":vars" :: .list names :: _ => bindEdits names Draft.empty.openScope
  | _ => []

/-- The operations on the draft when a form with these arguments is read as a process, up to the
first that fails. -/
def edits (arguments : List Node) : List Edit :=
  match readName ⟨"defprocess", arguments⟩ with
  | .error _ => []
  | .ok (_, f) =>
    .openScope :: (variableEdits f ++
      match readVariables f with
      | .error _ => []
      | .ok (d, body) => Statement.editsAll (body.map Statement.ofNode) d)

variable {l : Leniency} {f : Form} {d e : Draft} {p : Process} {name : Option String}
  {names arguments body : List Node} {inner : List Token}

theorem run_bindEdits_of_ok {symbol : String} {x : VariableId} (h : d.bind symbol = .ok (x, e)) :
    run (bindEdits (.symbol symbol :: names) d) d = run (bindEdits names e) e := by
  simp only [bindEdits, h]
  exact congrArg (fun r => run (bindEdits names e) r.2) (apply_bind_of_ok h)

theorem run_bindEdits_of_error {symbol : String} {fault : Draft.Fault}
    (h : d.bind symbol = .error fault) : run (bindEdits (.symbol symbol :: names) d) d = d := by
  simp only [bindEdits, h]
  exact congrArg Prod.snd (apply_bind_of_error h)

theorem run_bindEdits (h : bindAll names d = .ok e) : run (bindEdits names d) d = e := by
  induction names generalizing d with
  | nil => exact Except.ok.inj h
  | cons n rest ih =>
    obtain ⟨symbol, spelt, binding⟩ := bind_eq_ok_iff.mp h
    obtain ⟨⟨x, d'⟩, bound, others⟩ := bind_eq_ok_iff.mp binding
    obtain rfl := Statement.expectSymbol_eq_ok_iff.mp (reading_eq_ok_iff.mp spelt)
    rw [run_bindEdits_of_ok (mapError_eq_ok_iff.mp bound)]
    exact ih others

theorem run_variableEdits (h : readVariables f = .ok (d, body)) :
    run (variableEdits f) Draft.empty.openScope = d := by
  obtain ⟨form, arguments⟩ := f
  by_cases introduced : ∃ others, arguments = .keyword ":vars" :: others
  · obtain ⟨_ | ⟨n, others⟩, rfl⟩ := introduced
    · cases h
    · rw [readVariables_vars] at h
      obtain ⟨d', h, heq⟩ := map_eq_ok_iff.mp h
      obtain ⟨names, list, bound⟩ := bind_eq_ok_iff.mp h
      obtain rfl := Node.expectList_eq_ok_iff.mp (reading_eq_ok_iff.mp (within_eq_ok_iff.mp list))
      cases heq
      exact run_bindEdits bound
  · simp only [not_exists] at introduced
    rw [readVariables_of_other introduced] at h
    cases h
    unfold variableEdits
    split
    · exact (introduced _ ‹_›).elim
    · rfl

/-- **The operations of a process** lead to the draft that its body leaves when it is drawn, whether
this fails or not. -/
theorem run_edits (named : readName ⟨"defprocess", arguments⟩ = .ok (name, f))
    (bound : readVariables f = .ok (d, body)) : run (edits arguments) Draft.empty =
      (Statement.extendAll (body.map Statement.ofNode) d).draft := by
  simp only [edits, named, bound]
  show run (variableEdits f ++ _) Draft.empty.openScope = _
  rw [run_append, run_variableEdits bound, Statement.run_editsAll]

/-- A process is what its operations lead to, completed. -/
theorem finish_run_edits (h : readProcess l ⟨"defprocess", arguments⟩ = .ok p) :
    (run (edits arguments) Draft.empty).finish l p.name = .ok p := by
  obtain ⟨⟨name, f⟩, named, h⟩ := bind_eq_ok_iff.mp h
  obtain ⟨⟨d, body⟩, bound, h⟩ := bind_eq_ok_iff.mp h
  obtain ⟨e, drawn, finished⟩ := bind_eq_ok_iff.mp h
  have finished := mapError_eq_ok_iff.mp finished
  have same : p.name = name := by
    obtain ⟨rfl, -⟩ := finish_eq_ok finished
    rfl
  rw [run_edits named bound, Attempt.result_eq_ok_iff.mp drawn, same]
  exact finished

end Declaration

end ProtocolGraph
