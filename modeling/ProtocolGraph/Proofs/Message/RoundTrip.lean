import ProtocolGraph.Proofs.Declaration.Message
import ProtocolGraph.Proofs.Model.Relaxed
import ProtocolGraph.Proofs.Model.Rendering

/-!
# Messages as source text

The source text of a message declares that message, if its name and the names of its fields are
words that denote symbols: `Message.Nameable`. Every message that a source text declares is of this
kind.

* `Message.toNode`: the node that the source text of a message spells (`render_toNode`).
* `Nameable.ofSource_text`: the source text of a nameable message declares it.
* `nameable_of_ofSource`: what a text declares is nameable.
* **`ofSource_text_iff`** puts the two together.
-/

namespace ProtocolGraph.Message

open Node

/-- The node that declares the field. -/
def fieldNode (field : String) : Node :=
  .list [.symbol "field", .symbol field]

/-- The node that declares the message. -/
def toNode (m : Message) : Node :=
  .list (.symbol "defmessage" :: .symbol m.name :: m.fields.map fieldNode)

/-! ## What is written is read -/

theorem render_toNode (m : Message) : m.toNode.render = m.render := by
  have fields : ∀ field : String, ' ' :: (fieldNode field).render =
      " (field ".toList ++ field.toList ++ [')'] := fun field => by
    simp [fieldNode, Node.render, renderAll]
  have start : "(defmessage ".toList = '(' :: ("defmessage".toList ++ [' ']) := by simp
  unfold Message.render
  rw [toNode, Node.render, renderAll_cons, List.flatMap_cons, List.flatMap_map, start]
  simp only [fields, Node.render, List.cons_append, List.append_assoc, List.nil_append]

theorem namesFields_map_fieldNode (fields : List String) :
    NamesFields (fields.map fieldNode) fields := by
  have each : List.Forall₂ NamesField (fields.map fieldNode) fields := by
    rw [List.forall₂_map_left_iff, List.forall₂_same]
    exact fun field _ => .field (.bare field)
  cases fields with
  | nil => exact .none
  | cons field rest => exact .bare each

/-- The node of a message declares it. -/
theorem ofNodes_toNode (l : Leniency) (m : Message) :
    Model.ofNodes l [m.toNode] = .ok ⟨[m], []⟩ := by
  have declared : Declaration.ofElements l
      (.symbol "defmessage" :: .symbol m.name :: m.fields.map fieldNode) = .ok (.message m) :=
    Declaration.ofElements_eq_message_iff.mpr
      ⟨[.symbol m.name], _, rfl, .bare m.name, namesFields_map_fieldNode m.fields⟩
  have read : [.symbol "defmessage" :: .symbol m.name :: m.fields.map fieldNode].mapM
      (Declaration.ofElements l) = .ok [.message m] :=
    Outcome.mapM_eq_ok_iff.mpr (.cons declared .nil)
  exact congrArg (Except.map Model.ofDeclarations) read

section

variable [Text.Alphabet]

/-- The name of the message and those of its fields are words that denote symbols. -/
structure Nameable (m : Message) : Prop where
  name : Text.IsSymbol m.name
  fields : ∀ field ∈ m.fields, Text.IsSymbol field

variable {m : Message} {l : Leniency} {s : String} {model : Model}

theorem Nameable.wellSpelt (h : m.Nameable) : m.toNode.WellSpelt .strict := by
  have declares : Text.IsSymbol "defmessage" := by apply Text.isSymbol_of_ascii <;> decide +kernel
  have names : Text.IsSymbol "field" := by apply Text.isSymbol_of_ascii <;> decide +kernel
  refine .list (List.forall_mem_cons.mpr ⟨.symbol declares,
    List.forall_mem_cons.mpr ⟨.symbol h.name, List.forall_mem_map.mpr fun field hf => ?_⟩⟩)
  exact .list (List.forall_mem_cons.mpr
    ⟨.symbol names, List.forall_mem_singleton.mpr (.symbol (h.fields field hf))⟩)

/-- **The source text of a nameable message** declares this message and nothing else. -/
theorem Nameable.ofSource_text (h : m.Nameable) (l : Leniency) :
    Model.ofSource l m.text = .ok ⟨[m], []⟩ := by
  rw [Model.ofSource, text, ← render_toNode, Model.nodesOfSource_render h.wellSpelt]
  exact ofNodes_toNode l m

/-! ## What is read can be written -/

theorem isSymbol_of_names {keyword name : String} {ns : List Node} (h : Names keyword ns name)
    (spelt : ∀ n ∈ ns, n.WellSpelt l) : Text.IsSymbol name := by
  have symbol : (Node.symbol name).WellSpelt l := by
    cases h with
    | bare => exact spelt _ List.mem_cons_self
    | introduced => exact spelt _ (List.mem_cons_of_mem _ List.mem_cons_self)
  cases symbol
  assumption

theorem isSymbol_of_namesField {n : Node} {field : String} (h : NamesField n field)
    (spelt : n.WellSpelt l) : Text.IsSymbol field := by
  obtain ⟨named⟩ := h
  obtain ⟨inner⟩ := spelt
  exact isSymbol_of_names named fun n hn => inner n (List.mem_cons_of_mem _ hn)

theorem isSymbol_of_forall₂ {ns : List Node} {fields : List String}
    (h : List.Forall₂ NamesField ns fields) (spelt : ∀ n ∈ ns, n.WellSpelt l) :
    ∀ field ∈ fields, Text.IsSymbol field := by
  induction h with
  | nil => exact nofun
  | cons head _ ih =>
    obtain ⟨first, others⟩ := List.forall_mem_cons.mp spelt
    exact List.forall_mem_cons.mpr ⟨isSymbol_of_namesField head first, ih others⟩

theorem isSymbol_of_namesFields {ns : List Node} {fields : List String} (h : NamesFields ns fields)
    (spelt : ∀ n ∈ ns, n.WellSpelt l) : ∀ field ∈ fields, Text.IsSymbol field := by
  cases h with
  | none => exact nofun
  | bare each => exact isSymbol_of_forall₂ each spelt
  | introduced each =>
    exact isSymbol_of_forall₂ each fun n hn => spelt n (List.mem_cons_of_mem _ hn)

/-- **What a source text declares** is nameable. -/
theorem nameable_of_ofSource (h : Model.ofSource l s = .ok model) :
    ∀ m ∈ model.messages, m.Nameable := by
  intro m hm
  rw [Model.ofSource_eq_bind] at h
  obtain ⟨nodes, read, declared⟩ := Outcome.bind_eq_ok_iff.mp h
  obtain ⟨elements, hn, message⟩ := Model.exists_message declared hm
  obtain ⟨ns, rest, rfl, named, fields⟩ := Declaration.ofElements_eq_message_iff.mp message
  obtain ⟨inner⟩ := Model.wellSpelt_of_nodesOfSource read _ hn
  have spelt := (List.forall_mem_cons.mp inner).2
  exact ⟨isSymbol_of_names named fun n hn => spelt n (List.mem_append_left _ hn),
    isSymbol_of_namesFields fields fun n hn => spelt n (List.mem_append_right _ hn)⟩

/-- **Writing and reading a message are inverse on nameable messages.** The source text of a message
declares it as the first one exactly if it is nameable, and then it declares nothing else. So does
the source text of each message that some text declares, whatever is tolerated in that text. -/
theorem ofSource_text_iff (m : Message) :
    ((∃ model, Model.ofSource .strict m.text = .ok model ∧ model.messages.head? = some m) ↔
      m.Nameable) ∧
    (m.Nameable → Model.ofSource .strict m.text = .ok ⟨[m], []⟩) ∧
    ∀ l s model, Model.ofSource l s = .ok model → m ∈ model.messages →
      m.Nameable ∧ Model.ofSource .strict m.text = .ok ⟨[m], []⟩ := by
  refine ⟨⟨?_, fun h => ⟨_, h.ofSource_text _, rfl⟩⟩, fun h => h.ofSource_text _, ?_⟩
  · rintro ⟨model, read, first⟩
    exact nameable_of_ofSource read m (List.mem_of_mem_head? first)
  · intro l s model read hm
    have nameable := nameable_of_ofSource read m hm
    exact ⟨nameable, nameable.ofSource_text _⟩

end

/-- A name with a quote in it can be written; one that looks like a name and a field cannot. -/
theorem ofSource_text_iff_quote :
    (⟨"a\"b", ["-", "-"]⟩ : Message).Nameable ∧
    Model.ofSource .strict (⟨"a\"b", ["-", "-"]⟩ : Message).text =
      .ok ⟨[⟨"a\"b", ["-", "-"]⟩], []⟩ ∧
    ¬∃ model, Model.ofSource .strict (⟨"A (field B)", []⟩ : Message).text = .ok model ∧
      model.messages.head? = some ⟨"A (field B)", []⟩ := by
  have nameable : (⟨"a\"b", ["-", "-"]⟩ : Message).Nameable :=
    ⟨by decide +kernel, by decide +kernel⟩
  refine ⟨nameable, (ofSource_text_iff _).2.1 nameable, fun read => ?_⟩
  have spaced := ((ofSource_text_iff _).1.mp read).name.word.visible ' ' (by decide)
  exact absurd spaced (by decide +kernel)

end ProtocolGraph.Message
