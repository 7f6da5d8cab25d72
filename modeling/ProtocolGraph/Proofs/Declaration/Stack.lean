import ProtocolGraph.Failure.Nested
import ProtocolGraph.Proofs.Declaration.Failing
import ProtocolGraph.Proofs.Declaration.Grammar
import ProtocolGraph.Proofs.Statement.Failing

/-!
# The stack of a failure

The forms that a failure names are those that were being read when it arose, outermost first.
`Declaration.FailsAt` says which they are, in the terms of nodes and of the body alone, with one
rule for each stage at which the reading of a declaration can fail.

* `Declaration.failsAt_of_readProcess`, `Declaration.ProcessFailsAt.failsWith`: a process fails
  where its rules say, with the first statement that does if it comes that far.
* `Declaration.failsAt_of_ofElements`, `Declaration.FailsAt.failsWith`: so it is for the elements of
  a list.
* **`Model.stack_of_failure`**: nodes without a model fail with the first list among them that
  declares nothing, and the failure names the forms around the place where this one fails.
-/

namespace ProtocolGraph

/-! ## The rules -/

namespace Declaration

open Outcome Node

/-- The arguments declare no process, and a failure to read them for this cause names these
forms. -/
inductive ProcessFailsAt (leniency : Leniency) : List Node → List String → Cause → Prop
  | name {arguments cause} (nameless : ∀ name rest, ¬NamesProcess arguments name rest) :
      ProcessFailsAt leniency arguments [] cause
  | varsList {arguments name rest cause}
      (named : NamesProcess arguments name (.keyword ":vars" :: rest))
      (listless : ∀ ns body, rest ≠ .list ns :: body) :
      ProcessFailsAt leniency arguments [":vars"] cause
  | vars {arguments name ns body cause}
      (named : NamesProcess arguments name (.keyword ":vars" :: .list ns :: body))
      (indistinct : ∀ names : List String, names.Nodup → ns ≠ names.map .symbol) :
      ProcessFailsAt leniency arguments [] cause
  | statement {arguments name rest vars before n after d depth m e cause}
      (named : NamesProcess arguments name rest)
      (bound : BindsVariables rest vars (before ++ n :: after))
      (drawn : Statement.extendAll (before.map Statement.ofNode) Draft.empty = .done d)
      (reached : n.Reaches d depth m e) (fails : m.FailsHere e cause) :
      ProcessFailsAt leniency arguments
        (List.replicate depth "if" ++ m.ownForms e.current.isSome) cause
  | unplaced {arguments name rest vars body d label others}
      (named : NamesProcess arguments name rest) (bound : BindsVariables rest vars body)
      (drawn : Statement.extendAll (body.map Statement.ofNode) Draft.empty = .done d)
      (intolerable : leniency.unplacedLabels = false) (unplaced : d.unplaced = label :: others) :
      ProcessFailsAt leniency arguments [] (.graph (.unplacedLabel label))

/-- The elements of a list declare nothing, and a failure to read them for this cause names these
forms. -/
inductive FailsAt (leniency : Leniency) : List Node → List String → Cause → Prop
  | formless {elements cause} (headless : ∀ name arguments, elements ≠ .symbol name :: arguments) :
      FailsAt leniency elements [] cause
  | unknown {name arguments} (message : name ≠ "defmessage") (process : name ≠ "defprocess") :
      FailsAt leniency (.symbol name :: arguments) [] (.placement (.unknownDeclaration name))
  | message {arguments forms cause} (inner : MessageFailsAt arguments forms) :
      FailsAt leniency (.symbol "defmessage" :: arguments) ("defmessage" :: forms) cause
  | process {arguments forms cause} (inner : ProcessFailsAt leniency arguments forms cause) :
      FailsAt leniency (.symbol "defprocess" :: arguments) ("defprocess" :: forms) cause

variable {l : Leniency} {f : Form} {ns arguments elements : List Node} {forms : List String}
  {cause : Cause} {fault : Failure}

/-! ## Processes -/

/-- The name of a process fails inside no other form. -/
theorem failsInside_readName (f : Form) : FailsInside [] (readName f) := by
  unfold readName
  split
  · exact .bind (.reading _) fun r _ => .bind (.reading _) fun name _ => .ok _
  · exact .ok _
  · exact .ok _

theorem failsInside_bindAll (ns : List Node) (d : Draft) : FailsInside [] (bindAll ns d) := by
  induction ns generalizing d with
  | nil => exact .ok d
  | cons n ns ih => exact .bind (.reading _) fun name _ => .bind (.drawing _) fun r _ => ih r.2

/-- Where no list follows their keyword, the variables of a process fail inside it. -/
theorem failsWith_readVariables_listless (form : String)
    (listless : ∀ elements rest, ns ≠ .list elements :: rest) :
    FailsWith [":vars"] (readVariables ⟨form, .keyword ":vars" :: ns⟩) := by
  rcases ns with _ | ⟨n, body⟩
  · exact ⟨_, rfl, rfl⟩
  · rw [readVariables_vars]
    have failed : FailsWith [":vars"] (within ":vars" (reading n.expectList)) :=
      .within ((FailsInside.reading _).failsWith fun elements list => listless elements body
        (expectList_eq_ok_iff.mp (reading_eq_ok_iff.mp list) ▸ rfl)) _
    exact (failed.bind _).map _

/-- Variables in a list fail inside no other form. -/
theorem failsInside_readVariables_list (form : String) (elements : List Node) (body : List Node) :
    FailsInside [] (readVariables ⟨form, .keyword ":vars" :: .list elements :: body⟩) := by
  rw [readVariables_vars]
  rintro fault failed
  exact failsInside_bindAll elements _ fault (map_eq_error_iff.mp failed)

/-- Only variables that are introduced fail. -/
theorem exists_of_readVariables_eq_error (h : readVariables f = .error fault) :
    ∃ rest, f.arguments = .keyword ":vars" :: rest := by
  by_contra introduced
  simp only [not_exists] at introduced
  cases (readVariables_of_other introduced f.name).symm.trans h

/-- A draft cannot be completed if it leaves a label unplaced, and that is not tolerated. -/
theorem finish_eq_error_iff {d : Draft} {name : Option String} {cause : Draft.Fault} :
    d.finish l name = .error cause ↔ l.unplacedLabels = false ∧
      ∃ label others, d.unplaced = label :: others ∧ cause = .unplacedLabel label := by
  unfold Draft.finish
  cases l.unplacedLabels with
  | true => simp
  | false => cases d.unplaced <;> simp [eq_comm]

/-- **The variables of a process fail** at their list, or at one of them. -/
theorem failsAt_of_readVariables {name : Option String} {form : String}
    (named : NamesProcess arguments name ns) (h : readVariables ⟨form, ns⟩ = .error fault) :
    ProcessFailsAt l arguments fault.forms fault.cause := by
  obtain ⟨rest, rfl⟩ := exists_of_readVariables_eq_error h
  by_cases list : ∃ elements body, rest = .list elements :: body
  · obtain ⟨elements, body, rfl⟩ := list
    rw [failsInside_readVariables_list form elements body fault h]
    refine .vars named ?_
    rintro names distinct rfl
    have bound : readVariables ⟨form, .keyword ":vars" :: .list (names.map .symbol) :: body⟩ =
        .ok (_, body) := readVariables_eq_ok_iff.mpr ⟨names, .vars distinct body, rfl⟩
    cases h.symm.trans bound
  · simp only [not_exists] at list
    obtain ⟨_, failed, forms⟩ := failsWith_readVariables_listless form list
    cases h.symm.trans failed
    rw [forms]
    exact .varsList named list

/-- **A process fails** at its name, at its variables, with the first statement that does, or at a
label that is never placed. -/
theorem failsAt_of_readProcess {form : String}
    (h : readProcess l ⟨form, arguments⟩ = .error fault) :
    ProcessFailsAt l arguments fault.forms fault.cause := by
  rcases bind_eq_error_iff.mp h with failed | ⟨⟨name, ⟨form', ns⟩⟩, hname, later⟩
  · rw [failsInside_readName _ fault failed]
    refine .name fun name rest named => ?_
    have read : readName ⟨form, arguments⟩ = .ok (name, ⟨form, rest⟩) :=
      readName_eq_ok_iff.mpr ⟨rfl, named⟩
    cases failed.symm.trans read
  obtain ⟨-, named⟩ := readName_eq_ok_iff.mp hname
  rcases bind_eq_error_iff.mp later with failed | ⟨⟨d, body⟩, hbody, -⟩
  · exact failsAt_of_readVariables named failed
  obtain ⟨vars, bound, -⟩ := readVariables_eq_ok_iff.mp hbody
  rw [readProcess_of_binds named bound] at h
  rcases bind_eq_error_iff.mp h with failed | ⟨d, drawn, h⟩
  · obtain ⟨before, s, after, d, split, drawn, failed⟩ :=
      Statement.failure_extendAll_iff.mp (Attempt.result_eq_error_iff.mp failed)
    obtain ⟨before, rest, rfl, rfl, heq⟩ := List.map_eq_append_iff.mp split
    obtain ⟨n, after, rfl, rfl, rfl⟩ := List.map_eq_cons_iff.mp heq
    obtain ⟨depth, m, e, reached, fails, forms⟩ := Node.exists_reaches_of_failure failed
    rw [forms]
    exact .statement named bound drawn reached fails
  · obtain ⟨cause, unfinished, rfl⟩ := mapError_eq_error_iff.mp h
    obtain ⟨intolerable, label, others, unplaced, rfl⟩ :=
      finish_eq_error_iff.mp (map_eq_error_iff.mp unfinished)
    exact .unplaced named bound (Attempt.result_eq_ok_iff.mp drawn) intolerable unplaced

/-- Where a process fails by the rules, it does. -/
theorem ProcessFailsAt.failsWith (h : ProcessFailsAt l arguments forms cause) (form : String) :
    FailsWith forms (readProcess l ⟨form, arguments⟩) := by
  have passed : ∀ {name rest}, NamesProcess arguments name rest →
      readName ⟨form, arguments⟩ = .ok (name, ⟨form, rest⟩) := fun named =>
    readName_eq_ok_iff.mpr ⟨rfl, named⟩
  cases h with
  | name nameless =>
    have failed := (failsInside_readName ⟨form, arguments⟩).failsWith fun r read =>
      nameless _ _ (readName_eq_ok_iff.mp read).2
    exact failed.bind _
  | varsList named listless =>
    exact .later (passed named) ((failsWith_readVariables_listless form listless).bind _)
  | vars named indistinct =>
    refine .later (passed named) (.bind ?_ _)
    refine (failsInside_readVariables_list form _ _).failsWith fun r read => ?_
    obtain ⟨names, bound, -⟩ := readVariables_eq_ok_iff.mp read
    generalize heq : Form.arguments _ = rest at bound
    cases bound with
    | vars distinct => cases heq; exact indistinct _ distinct rfl
    | none unintroduced => exact unintroduced _ heq.symm
  | statement named bound drawn reached fails =>
    have failed := reached.failure_eq (congrArg Attempt.failure fails.failed)
    rw [readProcess_of_binds named bound]
    refine .bind ⟨⟨_, cause⟩, ?_, rfl⟩ _
    rw [Attempt.result_eq_error_iff, List.map_append, List.map_cons]
    exact Statement.failure_extendAll_iff.mpr ⟨_, _, _, _, rfl, drawn, failed⟩
  | unplaced named bound drawn intolerable unplaced =>
    rw [readProcess_of_binds named bound]
    refine .later (Attempt.result_eq_ok_iff.mpr drawn) ?_
    rw [finish_eq_error_iff.mpr ⟨intolerable, _, _, unplaced, rfl⟩]
    exact ⟨_, rfl, rfl⟩

/-! ## Either -/

/-- **A declaration fails** where its rule says. -/
theorem failsAt_of_ofElements (h : ofElements l elements = .error fault) :
    FailsAt l elements fault.forms fault.cause := by
  rcases bind_eq_error_iff.mp h with h | ⟨⟨name, arguments⟩, hf, h⟩
  · rw [FailsInside.reading _ fault h]
    refine .formless ?_
    rintro name arguments rfl
    cases h
  · obtain rfl : elements = .symbol name :: arguments := ofNodes_eq_ok_iff.mp hf
    change ofForm l ⟨name, arguments⟩ = .error fault at h
    unfold ofForm at h
    split_ifs at h with message process
    · obtain rfl : name = "defmessage" := message
      obtain ⟨g, hg, rfl⟩ := mapError_eq_error_iff.mp h
      exact .message ((failsWith_readMessage_iff _).mp ⟨g, map_eq_error_iff.mp hg, rfl⟩)
    · obtain rfl : name = "defprocess" := process
      obtain ⟨g, hg, rfl⟩ := mapError_eq_error_iff.mp h
      exact .process (failsAt_of_readProcess (map_eq_error_iff.mp hg))
    · cases h
      exact .unknown message process

/-- Where a declaration fails by the rules, it does. -/
theorem FailsAt.failsWith (h : FailsAt l elements forms cause) :
    FailsWith forms (ofElements l elements) := by
  cases h with
  | formless headless =>
    refine .bind ((FailsInside.reading _).failsWith fun f read => ?_) _
    exact headless f.name f.arguments (ofNodes_eq_ok_iff.mp read)
  | @unknown name arguments message process =>
    refine .later (ofNodes_eq_ok_iff (f := ⟨name, arguments⟩).mpr rfl) ?_
    rw [ofForm, if_neg message, if_neg process]
    exact ⟨_, rfl, rfl⟩
  | message inner => exact ((failsWith_readMessage_iff "defmessage").mpr inner).map _ |>.within _
  | process inner => exact ((inner.failsWith "defprocess").map _).within _

end Declaration

namespace Model

open Declaration

/-- Nodes fail with the first list among them that does. -/
theorem exists_of_ofNodes_eq_error {l : Leniency} {nodes : List Node} {fault : Failure}
    (h : ofNodes l nodes = .error fault) : ∃ before elements after,
      nodes = before ++ .list elements :: after ∧
      (∀ es, .list es ∈ before → ∃ declaration, ofElements l es = .ok declaration) ∧
      ofElements l elements = .error fault := by
  obtain ⟨before, elements, after, split, declared, failed⟩ :=
    Outcome.mapM_eq_error_iff.mp (Outcome.map_eq_error_iff.mp h)
  obtain ⟨first, rest, rfl, rfl, heq⟩ := List.filterMap_eq_append_iff.mp split
  obtain ⟨skipped, n, after, rfl, leaves, list, rfl⟩ := List.filterMap_eq_cons_iff.mp heq
  obtain rfl : n = .list elements := by
    cases n with
    | list _ => exact congrArg Node.list (Option.some.inj list)
    | _ => cases list
  refine ⟨first ++ skipped, elements, after, (List.append_assoc _ _ _).symm, fun es hes => ?_,
    failed⟩
  rcases List.mem_append.mp hes with hes | hes
  · exact declared es (Node.mem_filterMap_elements?_iff.mpr hes)
  · cases leaves _ hes

/-- **A failure reads as the stack of the forms around it.** Nodes without a model fail with the
first list among them that declares nothing. The failure is the one of this list, and names the
forms around the place where reading it fails, outermost first; as a nested error it has these
forms around its root, which is a cause and no form. The forms are

* none, if the list is no form or its name declares nothing;
* `defmessage`, and `field` if the first node that is no field is not a form of another name;
* `defprocess` and `:vars`, if no list follows this keyword;
* `defprocess` alone, if the rest of its head is wrong, or a label is never placed;
* `defprocess`, one `if` for each branch around the first statement that fails by itself, and this
  statement's own name if it is a form of a statement where control may come.

The rules that say so allow no other forms. -/
theorem stack_of_failure (leniency : Leniency) (nodes : List Node) (fault : Failure)
    (h : ofNodes leniency nodes = .error fault) : ∃ before elements after,
      nodes = before ++ .list elements :: after ∧
      (∀ es, .list es ∈ before → ∃ declaration, ofElements leniency es = .ok declaration) ∧
      ofElements leniency elements = .error fault ∧
      FailsAt leniency elements fault.forms fault.cause ∧
      (∀ forms cause, FailsAt leniency elements forms cause → forms = fault.forms) ∧
      fault.nested.root = .cause fault.cause ∧ fault.nested.forms = fault.forms := by
  obtain ⟨before, elements, after, split, declared, failed⟩ := exists_of_ofNodes_eq_error h
  refine ⟨before, elements, after, split, declared, failed, failsAt_of_ofElements failed,
    fun forms cause fails => ?_, fault.root_nested, fault.forms_nested⟩
  obtain ⟨fault', failed', rfl⟩ := fails.failsWith
  rw [Except.error.inj (failed.symm.trans failed')]

/-- A message, and a process that sends one without a name, two branches down. -/
def unnamedSend : List Node :=
  [.list [.symbol "defmessage", .symbol "ping"],
    .list [.symbol "defprocess", .list [.symbol "if", .symbol "a",
      .list [.symbol "goto", .keyword ":start"],
      .list [.symbol "if", .symbol "b", .list [.symbol "!send", .keyword ":message"]]]]]

theorem stack_of_failure_unnamedSend :
    ofNodes .strict unnamedSend = .error
      ⟨["defprocess", "if", "if", "!send"], .argument (.missingValue ":message")⟩ ∧
    ∃ before elements after, unnamedSend = before ++ .list elements :: after ∧
      (∀ es, .list es ∈ before → ∃ declaration, ofElements .strict es = .ok declaration) ∧
      ofElements .strict elements = .error
        ⟨["defprocess", "if", "if", "!send"], .argument (.missingValue ":message")⟩ ∧
      FailsAt .strict elements ["defprocess", "if", "if", "!send"]
        (.argument (.missingValue ":message")) ∧
      (∀ forms cause, FailsAt .strict elements forms cause →
        forms = ["defprocess", "if", "if", "!send"]) ∧
      (Failure.mk ["defprocess", "if", "if", "!send"]
        (.argument (.missingValue ":message"))).nested.root =
        .cause (.argument (.missingValue ":message")) ∧
      (Failure.mk ["defprocess", "if", "if", "!send"]
        (.argument (.missingValue ":message"))).nested.forms =
        ["defprocess", "if", "if", "!send"] := by
  have failed : ofNodes .strict unnamedSend = .error
      ⟨["defprocess", "if", "if", "!send"], .argument (.missingValue ":message")⟩ := by rfl
  exact ⟨failed, stack_of_failure .strict unnamedSend _ failed⟩

end Model

end ProtocolGraph
