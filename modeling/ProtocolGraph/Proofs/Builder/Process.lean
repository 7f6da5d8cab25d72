import ProtocolGraph.Builder.Process
import ProtocolGraph.Proofs.Builder.Translate
import ProtocolGraph.Proofs.Declaration.History

/-!
# Building a process is reading it

The process that a builder comes to, step by step, is the one that is read from the form, and the
builder is left with what the operations of the reading lead to. Both hold where the reading fails,
also in the midst of its header.

* `Building.processName_unread` and its kin: one lemma for each part of the form.
* **`Building.outcome_process`**: the whole form.
-/

namespace ProtocolGraph.Building

open Declaration Edit

variable {α : Type} {d : Draft}

/-- A keyword that does not introduce the name leaves the process unnamed. -/
theorem processName_of_keyword {c : Call} {found : String} (next : c.peek = some (.keyword found))
    (other : found ≠ ":name") : processName c = .ok (none, c) := by
  unfold processName
  rw [next]
  split
  · rename_i heq
    cases heq
    exact absurd rfl other
  · rename_i heq
    cases heq
  · rfl

theorem readName_of_keyword {f : Form} {found : String}
    (next : f.arguments.head? = some (.keyword found)) (other : found ≠ ":name") :
    readName f = .ok (none, f) := by
  unfold readName
  rw [next]
  split
  · rename_i heq
    cases heq
    exact absurd rfl other
  · rename_i heq
    cases heq
  · rfl

theorem processName_unread (c : Call) : readName c.unread =
    ((processName c).mapError .of).map fun r => (r.1, r.2.unread) := by
  have head := Call.head?_unread c
  cases next : c.peek with
  | none =>
    rw [next] at head
    rw [readName, processName, head, next]
    rfl
  | some n =>
    rw [next] at head
    cases n with
    | keyword found =>
      by_cases introduced : found = ":name"
      · subst introduced
        rw [readName, processName, head, next]
        show (reading (c.unread.named ":name") >>= _) = _
        rw [Call.unread_named]
        rcases c.named ":name" with ⟨fault | n, e⟩
        · rfl
        · cases n <;> rfl
      · rw [readName_of_keyword head introduced, processName_of_keyword next introduced]
        rfl
    | symbol name =>
      have read : c.positional = (.ok (.symbol name), c.advance 1) := by rw [Call.positional, next]
      rw [readName, processName, head, next, read, Call.unread_of_peek_eq_some next]
      rfl
    | _ =>
      rw [readName, processName, head, next]
      rfl

theorem outcome_bindSymbols (names : List Node) : ∀ d : Draft,
    (bindSymbols names).outcome d.builder =
      ((bindAll names d).map fun _ => (), (run (bindEdits names d) d).builder) := by
  induction names with
  | nil => exact fun _ => rfl
  | cons n rest ih =>
    intro d
    rw [bindSymbols, outcome_known_bind, bindAll]
    cases n with
    | symbol name =>
      show (operation (Builder.bindVariable name) >>= fun _ => bindSymbols rest).outcome _ =
        ((drawing (d.bind name) >>= fun r => bindAll rest r.2).map _, _)
      rw [outcome_bind, outcome_operation, Draft.bindVariable_builder]
      cases bound : d.bind name with
      | error fault =>
        rw [run_bindEdits_of_error bound]
        rfl
      | ok r =>
        rw [run_bindEdits_of_ok bound]
        exact ih r.2
    | _ => rfl

/-- Where no variables are introduced, none are bound. -/
theorem outcome_processVariables_of_other {c : Call} (other : c.peek ≠ some (.keyword ":vars"))
    (skipped : c.skipKeyword ":vars" = (false, c)) (b : Builder) :
    (processVariables c).outcome b = (.ok c.unread.arguments, b) ∧
      readVariables c.unread = .ok (Draft.empty.openScope, c.unread.arguments) ∧
      variableEdits c.unread = [] := by
  have unintroduced : ∀ rest, c.unread.arguments ≠ .keyword ":vars" :: rest := by
    intro rest spelt
    rw [← Call.head?_unread, spelt] at other
    exact other rfl
  refine ⟨?_, readVariables_of_other unintroduced _, ?_⟩
  · rw [processVariables, skipped]
    rfl
  · unfold variableEdits
    split
    · exact (unintroduced _ ‹_›).elim
    · rfl

/-- What the variables of a process come to, and the operations that bind them. -/
theorem outcome_processVariables (c : Call) :
    (processVariables c).outcome Draft.empty.openScope.builder =
      ((readVariables c.unread).map Prod.snd,
        (run (variableEdits c.unread) Draft.empty.openScope).builder) := by
  rcases Call.skipKeyword_cases ":vars" c with ⟨next, skipped⟩ | ⟨other, skipped⟩
  · rw [Call.unread_of_peek_eq_some next, processVariables, skipped]
    show (inForm ":vars" (known (content (c.advance 1).positional.1 Node.expectList)) >>= _).outcome
      _ = _
    rcases Call.positional_cases (c.advance 1) with ⟨none, same⟩ | ⟨list, here, same⟩
    · have empty : c.arguments.drop (c.position + 1) = [] :=
        List.drop_eq_nil_of_le (Call.peek_eq_none_iff.mp none)
      rw [same, empty]
      rfl
    · have spelt : c.arguments.drop (c.position + 1) =
          list :: ((c.advance 1).advance 1).unread.arguments :=
        congrArg Form.arguments (Call.unread_of_peek_eq_some here)
      rw [same, spelt, readVariables_vars]
      cases list with
      | list names =>
        show (bindSymbols names >>= fun _ => pure _).outcome _ =
          (((bindAll names Draft.empty.openScope).map (·, _)).map Prod.snd,
            (run (bindEdits names _) _).builder)
        rw [outcome_bind, outcome_bindSymbols]
        cases bindAll names Draft.empty.openScope <;> rfl
      | _ => rfl
  · obtain ⟨built, read, unedited⟩ := outcome_processVariables_of_other other skipped _
    rw [built, read, unedited]
    rfl

/-- **Building a process** is reading it from the form, and leaves the builder of the draft that the
operations of the reading lead to, whether the reading fails or not. -/
theorem outcome_process (leniency : Leniency) (arguments : List Node) :
    (process leniency ⟨"defprocess", arguments, 0⟩).outcome .new =
      (readProcess leniency ⟨"defprocess", arguments⟩,
        (run (edits arguments) Draft.empty).builder) := by
  have named : readName ⟨"defprocess", arguments⟩ = _ :=
    processName_unread ⟨"defprocess", arguments, 0⟩
  rw [process, outcome_known_bind, readProcess, edits, named]
  cases processName ⟨"defprocess", arguments, 0⟩ with
  | error cause => rfl
  | ok r =>
    obtain ⟨name, c⟩ := r
    show (processVariables c >>= fun body => translateAll body >>= fun _ =>
        operation fun b => (b.finish leniency name, b)).outcome Draft.empty.openScope.builder =
      (readVariables c.unread >>= fun r =>
          (Statement.extendAll (r.2.map Statement.ofNode) r.1).result >>= fun d =>
            drawing (d.finish leniency name),
        (run (variableEdits c.unread ++ _) Draft.empty.openScope).builder)
    rw [outcome_bind, outcome_processVariables, run_append]
    cases bound : readVariables c.unread with
    | error f => rfl
    | ok r =>
      obtain ⟨d, body⟩ := r
      rw [run_variableEdits bound]
      show (translateAll body >>= _).outcome d.builder = _
      rw [outcome_bind, outcome_translateAll, Statement.run_editsAll]
      show _ = ((Statement.extendAll (body.map Statement.ofNode) d).result >>= _, _)
      generalize Statement.extendAll (body.map Statement.ofNode) d = a
      obtain ⟨e, _ | f⟩ := a
      · show ((e.builder.finish leniency name).mapError _, _) = _
        rw [Draft.finish_builder]
        rfl
      · rfl

end ProtocolGraph.Building
