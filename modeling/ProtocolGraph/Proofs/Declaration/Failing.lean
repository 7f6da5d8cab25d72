import ProtocolGraph.Proofs.Declaration.Message

/-!
# Where a message fails

A failure names the forms that were being read when it arose. Which they are is said of an outcome,
and follows the steps of a reading; of the arguments of a message it is said in the terms of nodes.

* `Declaration.FailsInside`: an outcome that names just these forms if it is a failure.
  `Declaration.FailsWith`: one that is such a failure.
* `Declaration.failsWith_readFields_iff`: fields fail with the first node that is none, and inside
  the form that it is taken for (`Node.fieldForms`).
* **`Declaration.failsWith_readMessage_iff`**: a message fails where `Declaration.MessageFailsAt`
  says, and nowhere else.
-/

namespace ProtocolGraph

namespace Node

/-- The nodes of a message's fields, without the keyword that may introduce the first. -/
def fieldNodes : List Node → List Node
  | .keyword ":fields" :: n :: ns => n :: ns
  | ns => ns

/-- The forms that a failure to read the node as a field names: a form of another name is not read
as a field at all. -/
def fieldForms : Node → List String
  | .list (.symbol name :: _) => if name = "field" then ["field"] else []
  | _ => ["field"]

end Node

namespace Declaration

open Outcome Node

/-- The arguments declare no message, and a failure to read them names these forms. -/
inductive MessageFailsAt : List Node → List String → Prop
  | name {arguments} (nameless : ∀ ns rest name, arguments = ns ++ rest → ¬Names ":name" ns name) :
      MessageFailsAt arguments []
  | field {ns rest name before n after} (named : Names ":name" ns name)
      (split : fieldNodes rest = before ++ n :: after)
      (fields : ∀ m ∈ before, ∃ field, NamesField m field) (other : ∀ field, ¬NamesField n field) :
      MessageFailsAt (ns ++ rest) n.fieldForms

/-! ## Outcomes inside forms -/

section Outcomes

variable {α β : Type} {forms : List String} {r : Except Failure α}

/-- If the outcome is a failure, it names just these forms. -/
def FailsInside (forms : List String) (r : Except Failure α) : Prop :=
  ∀ f, r = .error f → f.forms = forms

/-- The outcome is a failure that names just these forms. -/
def FailsWith (forms : List String) (r : Except Failure α) : Prop :=
  ∃ f, r = .error f ∧ f.forms = forms

namespace FailsInside

theorem ok (a : α) : FailsInside forms (.ok a) :=
  fun _ h => by cases h

theorem reading (r : Except Form.Fault α) : FailsInside [] (reading r) := fun f h => by
  obtain ⟨fault, -, rfl⟩ := mapError_eq_error_iff.mp h
  rfl

theorem drawing (r : Except Draft.Fault α) : FailsInside [] (drawing r) := fun f h => by
  obtain ⟨fault, -, rfl⟩ := mapError_eq_error_iff.mp h
  rfl

theorem within (h : FailsInside forms r) (form : String) :
    FailsInside (form :: forms) (within form r) := fun f hf => by
  obtain ⟨g, hg, rfl⟩ := mapError_eq_error_iff.mp hf
  exact congrArg (form :: ·) (h g hg)

theorem bind {next : α → Except Failure β} (h : FailsInside forms r)
    (later : ∀ a, r = .ok a → FailsInside forms (next a)) :
    FailsInside forms (r >>= next) := fun f hf => by
  rcases bind_eq_error_iff.mp hf with hf | ⟨a, ha, hf⟩
  · exact h f hf
  · exact later a ha f hf

theorem failsWith (h : FailsInside forms r) (failed : ∀ a, r ≠ .ok a) : FailsWith forms r := by
  cases r with
  | error f => exact ⟨f, rfl, h f rfl⟩
  | ok a => exact absurd rfl (failed a)

end FailsInside

namespace FailsWith

theorem within (h : FailsWith forms r) (form : String) :
    FailsWith (form :: forms) (within form r) := by
  obtain ⟨f, rfl, rfl⟩ := h
  exact ⟨f.within form, rfl, rfl⟩

theorem map (h : FailsWith forms r) (answer : α → β) : FailsWith forms (r.map answer) := by
  obtain ⟨f, rfl, rfl⟩ := h
  exact ⟨f, rfl, rfl⟩

theorem bind (h : FailsWith forms r) (next : α → Except Failure β) :
    FailsWith forms (r >>= next) := by
  obtain ⟨f, rfl, rfl⟩ := h
  exact ⟨f, rfl, rfl⟩

theorem later {a : α} {next : α → Except Failure β} (done : r = .ok a)
    (h : FailsWith forms (next a)) : FailsWith forms (r >>= next) := by
  rw [done]
  exact h

end FailsWith

end Outcomes

variable {f g : Form} {n : Node} {ns arguments : List Node} {forms : List String}

/-! ## Fields and messages -/

/-- A node that is no field fails inside the form that it is taken for. -/
theorem failsInside_readField (n : Node) : FailsInside n.fieldForms (readField n) := by
  by_cases form : ∃ name arguments, n = .list (.symbol name :: arguments)
  · obtain ⟨name, arguments, rfl⟩ := form
    show FailsInside (if name = "field" then ["field"] else []) (ite (name ≠ "field") _ _)
    by_cases same : name = "field"
    · rw [if_pos same, if_neg fun other => other same]
      refine .within (.bind (.reading _) fun r _ => ?_) "field"
      exact .bind (.reading _) fun name _ => .bind (.reading _) fun _ _ => .ok name
    · rw [if_neg same, if_pos same]
      rintro f ⟨⟩
      rfl
  · have taken : n.fieldForms = ["field"] := by
      unfold fieldForms
      split
      · exact absurd ⟨_, _, rfl⟩ form
      · rfl
    rw [taken]
    refine .bind (.within (.reading _) "field") fun f hf => ?_
    obtain ⟨elements, list, spelt⟩ :=
      bind_eq_ok_iff.mp (reading_eq_ok_iff.mp (within_eq_ok_iff.mp hf))
    obtain rfl := expectList_eq_ok_iff.mp list
    obtain rfl := ofNodes_eq_ok_iff.mp (reading_eq_ok_iff.mpr spelt)
    exact absurd ⟨_, _, rfl⟩ form

theorem failsWith_readField_iff :
    FailsWith forms (readField n) ↔ (∀ field, ¬NamesField n field) ∧ forms = n.fieldForms := by
  constructor
  · rintro ⟨fault, failed, rfl⟩
    refine ⟨fun field named => ?_, failsInside_readField n fault failed⟩
    cases failed.symm.trans (readField_eq_ok_iff.mpr named)
  · rintro ⟨other, rfl⟩
    exact (failsInside_readField n).failsWith fun field read => other field
      (readField_eq_ok_iff.mp read)

theorem readFields_of_named (found : f.named ":fields" = .ok (n, g)) :
    readFields f = (fieldNodes f.arguments).mapM readField := by
  have nodes : fieldNodes f.arguments = n :: g.arguments := by
    rcases Form.named_eq_ok_iff.mp found with rfl | ⟨rfl, kind⟩
    · rfl
    · cases n with
      | keyword name => exact absurd rfl kind
      | _ => rfl
  have left : f.arguments ≠ [] := by
    rcases Form.named_eq_ok_iff.mp found with rfl | ⟨rfl, -⟩ <;> simp
  rw [nodes, readFields, if_neg (by simpa [Form.isExhausted] using left), found, List.mapM_cons]
  rfl

/-- An argument that cannot be read is a keyword: another one than might introduce it, or that one
with nothing behind. -/
theorem exists_keyword_of_named {keyword : String} {fault : Form.Fault}
    (h : f.named keyword = .error fault) (left : f.arguments ≠ []) :
    ∃ found rest, f.arguments = .keyword found :: rest ∧ (found = keyword → rest = []) := by
  obtain ⟨form, _ | ⟨n, rest⟩⟩ := f
  · exact absurd rfl left
  · cases n with
    | keyword found =>
      refine ⟨found, rest, rfl, ?_⟩
      rintro rfl
      cases rest with
      | nil => rfl
      | cons value rest => simp [Form.named] at h
    | _ => cases h

/-- Fields fail like the nodes that they are read from. A keyword in front that introduces none of
them fails inside the first. -/
theorem failsWith_readFields_iff_mapM : FailsWith forms (readFields f) ↔
    FailsWith forms ((fieldNodes f.arguments).mapM readField) := by
  by_cases left : f.arguments = []
  · have read : readFields f = .ok [] := by rw [readFields, Form.isExhausted, left]; rfl
    rw [read, left]
    rfl
  cases found : f.named ":fields" with
  | ok r => rw [readFields_of_named found]
  | error cause =>
    obtain ⟨keyword, rest, heq, alone⟩ := exists_keyword_of_named found left
    have nodes : fieldNodes f.arguments = .keyword keyword :: rest := by
      rw [heq]
      unfold fieldNodes
      split
      · rename_i same
        obtain ⟨hk, hr⟩ := List.cons.inj same
        cases hk
        rw [alone rfl] at hr
        cases hr
      · rfl
    have failed : readFields f = .error ⟨["field"], .argument cause⟩ := by
      rw [readFields, if_neg (by simpa [Form.isExhausted] using left), found]
      rfl
    rw [failed, nodes, List.mapM_cons]
    constructor
    · rintro ⟨fault, ⟨⟩, rfl⟩
      exact ⟨_, rfl, rfl⟩
    · rintro ⟨fault, ⟨⟩, rfl⟩
      exact ⟨_, rfl, rfl⟩

/-- **Fields fail** with the first node that is none. -/
theorem failsWith_readFields_iff : FailsWith forms (readFields f) ↔
    ∃ before n after, fieldNodes f.arguments = before ++ n :: after ∧
      (∀ m ∈ before, ∃ field, NamesField m field) ∧ (∀ field, ¬NamesField n field) ∧
      forms = n.fieldForms := by
  constructor
  · intro h
    obtain ⟨fault, failed, rfl⟩ := failsWith_readFields_iff_mapM.mp h
    obtain ⟨before, n, after, split, fields, failed⟩ := mapM_eq_error_iff.mp failed
    simp only [readField_eq_ok_iff] at fields
    exact ⟨before, n, after, split, fields, failsWith_readField_iff.mp ⟨fault, failed, rfl⟩⟩
  · rintro ⟨before, n, after, split, fields, other⟩
    obtain ⟨fault, failed, rfl⟩ := failsWith_readField_iff.mpr other
    simp only [← readField_eq_ok_iff] at fields
    exact failsWith_readFields_iff_mapM.mpr
      ⟨fault, mapM_eq_error_iff.mpr ⟨before, n, after, split, fields, failed⟩, rfl⟩

/-- What follows the name of a message are its fields. -/
theorem readMessage_of_names {name : String} (named : Names ":name" ns name) (form : String)
    (rest : List Node) : readMessage ⟨form, ns ++ rest⟩ =
      (readFields ⟨form, rest⟩).map (⟨name, ·⟩) := by
  obtain ⟨n, found, symbol⟩ := (named_symbol_iff (f := ⟨form, ns ++ rest⟩)
    (g := ⟨form, rest⟩)).mpr ⟨ns, named, rfl⟩
  rw [readMessage, found]
  show (reading n.expectSymbol >>= fun name => readFields ⟨form, rest⟩ >>= _) = _
  rw [symbol]
  rfl

/-- **A message fails** at its name, or with the first of its fields that does. -/
theorem failsWith_readMessage_iff (form : String) :
    FailsWith forms (readMessage ⟨form, arguments⟩) ↔ MessageFailsAt arguments forms := by
  by_cases named : ∃ ns rest name, arguments = ns ++ rest ∧ Names ":name" ns name
  · constructor
    · obtain ⟨ns, rest, name, rfl, named⟩ := named
      rintro ⟨fault, failed, rfl⟩
      rw [readMessage_of_names named, map_eq_error_iff] at failed
      obtain ⟨before, n, after, split, fields, other, forms⟩ :=
        failsWith_readFields_iff.mp ⟨fault, failed, rfl⟩
      rw [forms]
      exact .field named split fields other
    · intro fails
      cases fails with
      | name nameless =>
        obtain ⟨ns, rest, name, split, named⟩ := named
        exact absurd named (nameless ns rest name split)
      | field names split fields other =>
        rw [readMessage_of_names names]
        exact .map (failsWith_readFields_iff.mpr ⟨_, _, _, split, fields, other, rfl⟩) _
  · have formless : FailsInside [] (readMessage ⟨form, arguments⟩) := by
      refine .bind (.reading _) fun r hr => .bind (.reading _) fun name hn => ?_
      obtain ⟨ns, names, split⟩ := named_symbol_iff.mp
        ⟨r.1, reading_eq_ok_iff.mp hr, reading_eq_ok_iff.mp hn⟩
      exact absurd ⟨ns, r.2.arguments, name, congrArg Form.arguments split, names⟩ named
    constructor
    · rintro ⟨fault, failed, rfl⟩
      rw [formless fault failed]
      exact .name fun ns rest name split names => named ⟨ns, rest, name, split, names⟩
    · intro fails
      cases fails with
      | name nameless =>
        refine formless.failsWith fun m read => ?_
        obtain ⟨ns, rest, split, names, -⟩ := readMessage_eq_ok_iff.mp read
        exact nameless ns rest _ split names
      | field names => exact absurd ⟨_, _, _, rfl, names⟩ named

end Declaration

end ProtocolGraph
