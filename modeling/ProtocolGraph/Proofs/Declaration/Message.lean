import ProtocolGraph.Proofs.Declaration.Graph
import ProtocolGraph.Proofs.Statement.Reading

/-!
# Declarations of messages

Which forms declare a message, in the terms of nodes alone, and which message it is.

* `Node.Names`: a symbol, which a keyword may introduce.
* `Node.NamesField`, `Node.NamesFields`: a field, and all the fields of a message.
* **`Declaration.readMessage_eq_ok_iff`**: a form declares a message with the name and the fields
  that its arguments name, and is read in no other case.
* `Declaration.ofElements_eq_message_iff`, `Model.exists_message`: so it is for the elements of a
  list, and for every message of a model.
-/

namespace ProtocolGraph

/-! ## The grammar -/

namespace Node

/-- The nodes are a symbol of this name, which the keyword may introduce. -/
inductive Names (keyword : String) : List Node → String → Prop
  | bare (name) : Names keyword [.symbol name] name
  | introduced (name) : Names keyword [.keyword keyword, .symbol name] name

/-- The node declares the field of this name. -/
inductive NamesField : Node → String → Prop
  | field {ns name} (named : Names ":name" ns name) :
      NamesField (.list (.symbol "field" :: ns)) name

/-- The nodes declare the fields of these names: none at all, or some, which a keyword may
introduce. -/
inductive NamesFields : List Node → List String → Prop
  | none : NamesFields [] []
  | bare {n ns names} (each : List.Forall₂ NamesField (n :: ns) names) :
      NamesFields (n :: ns) names
  | introduced {n ns names} (each : List.Forall₂ NamesField (n :: ns) names) :
      NamesFields (.keyword ":fields" :: n :: ns) names

theorem expectList_eq_ok_iff {n : Node} {elements : List Node} :
    n.expectList = .ok elements ↔ n = .list elements := by
  cases n <;> simp [expectList]

end Node

namespace Declaration

open Outcome Node

variable {l : Leniency} {f g : Form} {n : Node} {ns elements : List Node} {name : String}
  {names : List String} {m : Message}

/-! ## Reading is by the grammar -/

theorem reading_eq_ok_iff {α : Type} {r : Except Form.Fault α} {a : α} :
    reading r = .ok a ↔ r = .ok a :=
  mapError_eq_ok_iff

/-- A name is read off the arguments when they start with a symbol, introduced or not. -/
theorem named_symbol_iff {keyword : String} :
    (∃ n, f.named keyword = .ok (n, g) ∧ n.expectSymbol = .ok name) ↔
      ∃ ns, Names keyword ns name ∧ f = ⟨g.name, ns ++ g.arguments⟩ := by
  constructor
  · rintro ⟨n, found, symbol⟩
    obtain rfl := Statement.expectSymbol_eq_ok_iff.mp symbol
    rcases Form.named_eq_ok_iff.mp found with hf | ⟨hf, -⟩
    · exact ⟨_, .introduced name, hf⟩
    · exact ⟨_, .bare name, hf⟩
  · rintro ⟨ns, named, rfl⟩
    refine ⟨.symbol name, Form.named_eq_ok_iff.mpr ?_, rfl⟩
    cases named with
    | bare => exact Or.inr ⟨rfl, nofun⟩
    | introduced => exact Or.inl rfl

theorem readName_of_field_iff :
    ((do
      let (n, g) ← reading (f.named ":name")
      let name ← reading n.expectSymbol
      reading g.finish
      return name) : Except Failure String) = .ok name ↔ Names ":name" f.arguments name := by
  simp only [bind_eq_ok_iff, reading_eq_ok_iff]
  constructor
  · rintro ⟨⟨n, g⟩, found, _, symbol, ⟨⟩, finished, heq⟩
    obtain rfl := Except.ok.inj heq
    obtain ⟨ns, named, rfl⟩ := named_symbol_iff.mp ⟨n, found, symbol⟩
    rwa [Form.finish_eq_ok_iff.mp finished, List.append_nil]
  · intro named
    have split : f = ⟨f.name, f.arguments ++ []⟩ := by rw [List.append_nil]
    obtain ⟨n, found, symbol⟩ := (named_symbol_iff (g := ⟨f.name, []⟩)).mpr ⟨_, named, split⟩
    exact ⟨⟨n, _⟩, found, name, symbol, (), rfl, rfl⟩

/-- **A field is read** off the nodes that declare one. -/
theorem readField_eq_ok_iff : readField n = .ok name ↔ NamesField n name := by
  unfold readField
  simp only [bind_eq_ok_iff, within_eq_ok_iff]
  constructor
  · rintro ⟨f, form, h⟩
    obtain ⟨elements, list, spelt⟩ := bind_eq_ok_iff.mp (reading_eq_ok_iff.mp form)
    obtain rfl := expectList_eq_ok_iff.mp list
    obtain rfl := ofNodes_eq_ok_iff.mp (reading_eq_ok_iff.mpr spelt)
    split at h
    · cases h
    · rename_i same
      rw [Decidable.not_not.mp same]
      exact .field (readName_of_field_iff.mp (within_eq_ok_iff.mp h))
  · rintro ⟨named⟩
    refine ⟨⟨"field", _⟩, rfl, ?_⟩
    rw [if_neg fun other => other rfl, within_eq_ok_iff]
    exact readName_of_field_iff.mpr named

theorem mapM_readField_eq_ok_iff :
    ns.mapM readField = .ok names ↔ List.Forall₂ NamesField ns names := by
  rw [mapM_eq_ok_iff]
  simp only [readField_eq_ok_iff]

/-- **Fields are read** off the nodes that declare them. -/
theorem readFields_eq_ok_iff : readFields f = .ok names ↔ NamesFields f.arguments names := by
  obtain ⟨name, arguments⟩ := f
  cases arguments with
  | nil =>
    constructor
    · rintro ⟨⟩
      exact .none
    · rintro ⟨⟩
      rfl
  | cons n ns =>
    unfold readFields
    rw [if_neg (by simp [Form.isExhausted])]
    simp only [bind_eq_ok_iff, within_eq_ok_iff, reading_eq_ok_iff, mapM_readField_eq_ok_iff,
      readField_eq_ok_iff]
    constructor
    · rintro ⟨⟨first, g⟩, found, _, head, _, tail, heq⟩
      obtain rfl := Except.ok.inj heq
      rcases Form.named_eq_ok_iff.mp found with hf | ⟨hf, -⟩
      · cases hf
        exact .introduced (.cons head tail)
      · cases hf
        exact .bare (.cons head tail)
    · rintro (_ | each | each)
      · cases each with
        | cons head tail =>
          have kind : n.kind ≠ .keyword := by
            cases head
            exact nofun
          exact ⟨⟨n, ⟨name, ns⟩⟩, Form.named_eq_ok_iff.mpr (Or.inr ⟨rfl, kind⟩), _, head, _, tail,
            rfl⟩
      · cases each with
        | cons head tail =>
          exact ⟨⟨_, ⟨name, _⟩⟩, Form.named_eq_ok_iff.mpr (Or.inl rfl), _, head, _, tail, rfl⟩

/-- **A message is read** off the arguments that name it and its fields. -/
theorem readMessage_eq_ok_iff : readMessage f = .ok m ↔
    ∃ ns rest, f.arguments = ns ++ rest ∧ Names ":name" ns m.name ∧ NamesFields rest m.fields := by
  unfold readMessage
  simp only [bind_eq_ok_iff, reading_eq_ok_iff, readFields_eq_ok_iff]
  constructor
  · rintro ⟨⟨n, g⟩, found, name, symbol, fields, named, heq⟩
    obtain rfl := Except.ok.inj heq
    obtain ⟨ns, names, rfl⟩ := named_symbol_iff.mp ⟨n, found, symbol⟩
    exact ⟨ns, g.arguments, rfl, names, named⟩
  · rintro ⟨ns, rest, split, names, named⟩
    have split : f = ⟨f.name, ns ++ rest⟩ := split ▸ rfl
    obtain ⟨n, found, symbol⟩ := (named_symbol_iff (g := ⟨f.name, rest⟩)).mpr ⟨ns, names, split⟩
    exact ⟨(n, _), found, m.name, symbol, m.fields, named, rfl⟩

theorem ofElements_eq_message_iff : ofElements l elements = .ok (.message m) ↔
    ∃ ns rest, elements = .symbol "defmessage" :: (ns ++ rest) ∧ Names ":name" ns m.name ∧
      NamesFields rest m.fields := by
  unfold ofElements
  simp only [bind_eq_ok_iff, ofNodes_eq_ok_iff]
  constructor
  · rintro ⟨⟨form, arguments⟩, rfl, h⟩
    unfold ofForm at h
    split at h
    · rename_i same
      obtain ⟨_, read, heq⟩ := map_eq_ok_iff.mp (within_eq_ok_iff.mp h)
      cases heq
      obtain ⟨ns, rest, rfl, names, named⟩ := readMessage_eq_ok_iff.mp read
      exact ⟨ns, rest, same ▸ rfl, names, named⟩
    · split at h
      · obtain ⟨_, -, heq⟩ := map_eq_ok_iff.mp (within_eq_ok_iff.mp h)
        cases heq
      · cases h
  · rintro ⟨ns, rest, rfl, names, named⟩
    refine ⟨⟨"defmessage", ns ++ rest⟩, rfl, ?_⟩
    rw [ofForm, if_pos rfl, within_eq_ok_iff, map_eq_ok_iff]
    exact ⟨m, readMessage_eq_ok_iff.mpr ⟨ns, rest, rfl, names, named⟩, rfl⟩

end Declaration

/-- Each message of a model is declared by a list among the nodes. -/
theorem Model.exists_message {l : Leniency} {nodes : List Node} {model : Model} {m : Message}
    (h : ofNodes l nodes = .ok model) (hm : m ∈ model.messages) :
    ∃ elements, .list elements ∈ nodes ∧
      Declaration.ofElements l elements = .ok (.message m) := by
  obtain ⟨declarations, hd, rfl⟩ := Outcome.map_eq_ok_iff.mp h
  obtain ⟨declaration, hmem, hmessage⟩ := List.mem_filterMap.mp hm
  obtain rfl : declaration = .message m := by
    cases declaration with
    | message _ => exact congrArg Declaration.message (Option.some.inj hmessage)
    | process _ => cases hmessage
  exact exists_elements_of_mem hd hmem

end ProtocolGraph
