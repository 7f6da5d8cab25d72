import ProtocolGraph.Model.Json
import ProtocolGraph.Proofs.Json.Alike
import ProtocolGraph.Proofs.Json.Schema
import ProtocolGraph.Proofs.Message.RoundTrip
import ProtocolGraph.Proofs.Process.WellFormed
import ProtocolGraph.Proofs.Statement.Marked

/-!
# The schema of models

The JSON form of models is published as a schema: `Model.schema`, with `Model.schemaDefinitions` for
the parts of a model.

* `Expression.describes_toJson`: every expression meets exactly one of the three alternatives of its
  schema.
* `Process.Publishable`: what the schema asks of a process apart from its form. States are numbered
  from one, there is a state, and the names of states and of fields start with a colon.
* `Model.describes_toJson_iff`: what it asks of a model.
* **`Model.describes_of_ofSource`**: the schema describes every model that a source text declares.
-/

namespace ProtocolGraph

open Json Entries

/-! ## The published schema -/

namespace Model

/-- Objects that have all their properties. -/
def record (properties : List (String × Schema)) : Schema :=
  .object (keys properties) properties

/-- Values of this type. -/
def tagged (type : String) (value : Schema) : Schema :=
  record [("type", .enum [type]), ("value", value)]

/-- The definitions of the schema of models. -/
def schemaDefinitions : List (String × Schema) :=
  [("Message", record [("name", .string 1), ("fields", .array .string)]),
    ("StateId", .integer (some 1)),
    ("State", .object ["id"] [("id", .reference "StateId"), ("name", .string 0 (some ':'))]),
    ("Variable", record [("id", .integer (some 0)), ("name", .string)]),
    ("Action", record [("kind", .enum ["send", "receive"]), ("message", .string)]),
    ("Expression", .oneOf [tagged "ref" .string, tagged "int" .integer,
      tagged "list" (.array (.reference "Expression"))]),
    ("Transition", .object ["from", "to"]
      [("from", .reference "StateId"), ("to", .reference "StateId"),
        ("action", .reference "Action"),
        ("valuation", .map (some ':') (.reference "Expression")),
        ("guard", .reference "Expression")]),
    ("Process", .object ["vars", "initial", "states", "transitions"]
      [("name", .string), ("vars", .array (.reference "Variable")),
        ("initial", .reference "StateId"), ("states", .array (.reference "State") 1),
        ("transitions", .array (.reference "Transition"))])]

/-- The schema of models. -/
def schema : Schema :=
  record [("messages", .array (.reference "Message")),
    ("processes", .array (.reference "Process"))]

end Model

open Json.Schema Model

variable {depth : Nat}

/-! ## Records -/

namespace Model

variable {definitions : List (String × Schema)} {a b : Json} {k l : String} {s t : Schema}

theorem accepts_record_pair (h : k ≠ l) :
    accepts definitions depth (record [(k, s), (l, t)]) (.object [(k, a), (l, b)]) = true ↔
      Describes definitions s a ∧ Describes definitions t b := by
  have first : [(k, s), (l, t)].lookup k = some s := by simp [lookup_cons]
  have second : [(k, s), (l, t)].lookup l = some t := by simp [lookup_cons, h.symm]
  rw [record, accepts_object_iff, List.forall_mem_cons, List.forall_mem_singleton,
    admits_iff first, admits_iff second]
  exact and_iff_right (List.Subset.refl [k, l])

/-- A value of a type meets only the schema of that type. -/
theorem accepts_tagged (type tag : String) (value : Schema) (v : Json) :
    accepts definitions depth (tagged type value)
        (.object [("type", .string tag), ("value", v)]) =
      (decide (tag = type) && accepts definitions definitions.length value v) := by
  rw [Bool.eq_iff_iff, tagged, accepts_record_pair (by decide), Describes, accepts_enum_iff,
    List.mem_singleton, Bool.and_eq_true, decide_eq_true_eq, Describes]

end Model

/-! ## Expressions -/

mutual

theorem Expression.describes_toJson : ∀ e : Expression,
    Describes schemaDefinitions (.reference "Expression") e.toJson
  | .reference name => by
    have value : accepts schemaDefinitions schemaDefinitions.length .string (.string name) = true :=
      describes_string name
    rw [describes_reference_iff rfl, toJson, accepts_oneOf]
    simp [accepts_tagged, value]
  | .int n => by
    have value : accepts schemaDefinitions schemaDefinitions.length .integer (.int n.toInt) =
        true := accepts_integer_iff.mpr nofun
    rw [describes_reference_iff rfl, toJson, accepts_oneOf]
    simp [accepts_tagged, value]
  | .list elements => by
    have value : accepts schemaDefinitions schemaDefinitions.length
        (.array (.reference "Expression")) (.array (toJsonAll elements)) = true :=
      accepts_array_iff.mpr ⟨Nat.zero_le _, Expression.describes_toJsonAll elements⟩
    rw [describes_reference_iff rfl, toJson, accepts_oneOf]
    simp [accepts_tagged, value]

theorem Expression.describes_toJsonAll : ∀ es : List Expression,
    ∀ j ∈ toJsonAll es, Describes schemaDefinitions (.reference "Expression") j
  | [] => nofun
  | e :: es =>
    List.forall_mem_cons.mpr ⟨Expression.describes_toJson e, Expression.describes_toJsonAll es⟩

end

/-! ## Processes -/

theorem describes_id_iff {n : Nat} :
    Describes schemaDefinitions (.reference "StateId") (.int n) ↔ 1 ≤ n := by
  rw [describes_reference_iff rfl, accepts_integer_iff]
  constructor
  · exact fun h => Int.ofNat_le.mp (h 1 rfl)
  · rintro h _ ⟨⟩
    exact Int.ofNat_le.mpr h

theorem Variable.describes_toJson (v : Variable) :
    Describes schemaDefinitions (.reference "Variable") v.toJson := by
  rw [describes_reference_iff rfl, toJson, accepts_record_pair (by decide)]
  exact ⟨accepts_integer_iff.mpr (by simp), describes_string v.name⟩

theorem Action.describes_toJson (a : Action) :
    Describes schemaDefinitions (.reference "Action") a.toJson := by
  rw [describes_reference_iff rfl]
  cases a with
  | send message =>
    rw [toJson, accepts_record_pair (by decide)]
    exact ⟨accepts_enum_iff.mpr (by decide), describes_string message⟩
  | receive message =>
    rw [toJson, accepts_record_pair (by decide)]
    exact ⟨accepts_enum_iff.mpr (by decide), describes_string message⟩

theorem State.describes_toJson_iff {s : State} :
    Describes schemaDefinitions (.reference "State") s.toJson ↔
      1 ≤ s.id ∧ ∀ n ∈ s.name, Text.Marked n := by
  have name : ∀ n : String, Describes schemaDefinitions (.string 0 (some ':')) (.string n) ↔
      Text.Marked n := fun n => by
    rw [Describes, accepts_string_iff]
    simp [Text.Marked]
  have required : ["id"] ⊆ keys (("id", int s.id) :: optional "name" .string s.name) :=
    List.cons_subset.mpr ⟨List.mem_cons_self, List.nil_subset _⟩
  rw [describes_reference_iff rfl, toJson, accepts_object_iff, List.forall_mem_cons,
    forall_mem_optional, admits_iff rfl, describes_id_iff, and_iff_right required]
  refine and_congr_right fun _ => forall₂_congr fun n _ => ?_
  rw [admits_iff rfl, name]

theorem Valuation.describes_toJson_iff {v : Valuation} :
    Describes schemaDefinitions (.map (some ':') (.reference "Expression")) v.toJson ↔
      v.Marked := by
  rw [Describes, toJson, accepts_map_iff, List.forall_mem_map]
  simp [Expression.describes_toJson, Marked, Text.Marked]

theorem Transition.describes_toJson_iff {t : Transition} :
    Describes schemaDefinitions (.reference "Transition") t.toJson ↔
      1 ≤ t.source ∧ 1 ≤ t.target ∧ ∀ v ∈ t.label.valuation, v.Marked := by
  rw [describes_reference_iff rfl, toJson, accepts_object_iff]
  simp only [List.forall_mem_cons, List.forall_mem_append, forall_mem_optional]
  constructor
  · rintro ⟨-, source, target, -, valuation, -⟩
    exact ⟨describes_id_iff.mp ((admits_iff rfl).mp source),
      describes_id_iff.mp ((admits_iff rfl).mp target),
      fun v hv => Valuation.describes_toJson_iff.mp ((admits_iff rfl).mp (valuation v hv))⟩
  · rintro ⟨source, target, marked⟩
    refine ⟨?_, (admits_iff rfl).mpr (describes_id_iff.mpr source),
      (admits_iff rfl).mpr (describes_id_iff.mpr target), fun a _ => ?_, fun v hv => ?_,
      fun e _ => ?_⟩
    · simp [keys]
    · exact (admits_iff rfl).mpr a.describes_toJson
    · exact (admits_iff rfl).mpr (Valuation.describes_toJson_iff.mpr (marked v hv))
    · exact (admits_iff rfl).mpr e.describes_toJson

/-- What the schema asks of a process, apart from its form. -/
structure Process.Publishable (p : Process) : Prop where
  /-- The states are numbered from one, -/
  initial : 1 ≤ p.initial
  ids : ∀ s ∈ p.states, 1 ≤ s.id
  sources : ∀ t ∈ p.transitions, 1 ≤ t.source
  targets : ∀ t ∈ p.transitions, 1 ≤ t.target
  /-- there is one, -/
  nonempty : p.states ≠ []
  /-- and the names of states and of fields start with a colon. -/
  names : ∀ s ∈ p.states, ∀ n ∈ s.name, Text.Marked n
  fields : ∀ t ∈ p.transitions, ∀ v ∈ t.label.valuation, v.Marked

theorem Process.describes_toJson_iff {p : Process} :
    Describes schemaDefinitions (.reference "Process") p.toJson ↔ p.Publishable := by
  rw [describes_reference_iff rfl, toJson, accepts_object_iff]
  simp only [List.forall_mem_cons, List.forall_mem_append, forall_mem_optional]
  constructor
  · rintro ⟨-, -, -, initial, states, transitions, -⟩
    obtain ⟨nonempty, states⟩ := describes_array_map_iff.mp ((admits_iff rfl).mp states)
    obtain ⟨-, transitions⟩ := describes_array_map_iff.mp ((admits_iff rfl).mp transitions)
    exact {
      initial := describes_id_iff.mp ((admits_iff rfl).mp initial)
      ids := fun s hs => (State.describes_toJson_iff.mp (states s hs)).1
      sources := fun t ht => (Transition.describes_toJson_iff.mp (transitions t ht)).1
      targets := fun t ht => (Transition.describes_toJson_iff.mp (transitions t ht)).2.1
      nonempty := List.ne_nil_of_length_pos nonempty
      names := fun s hs => (State.describes_toJson_iff.mp (states s hs)).2
      fields := fun t ht => (Transition.describes_toJson_iff.mp (transitions t ht)).2.2 }
  · intro h
    refine ⟨?_, fun n _ => ?_, ?_, ?_, ?_, ?_, nofun⟩
    · simp [keys]
    · exact (admits_iff rfl).mpr (describes_string n)
    · exact (admits_iff rfl).mpr
        (describes_array_map_iff.mpr ⟨Nat.zero_le _, fun v _ => v.describes_toJson⟩)
    · exact (admits_iff rfl).mpr (describes_id_iff.mpr h.initial)
    · exact (admits_iff rfl).mpr (describes_array_map_iff.mpr
        ⟨List.length_pos_iff.mpr h.nonempty, fun s hs =>
          State.describes_toJson_iff.mpr ⟨h.ids s hs, h.names s hs⟩⟩)
    · exact (admits_iff rfl).mpr (describes_array_map_iff.mpr
        ⟨Nat.zero_le _, fun t ht =>
          Transition.describes_toJson_iff.mpr ⟨h.sources t ht, h.targets t ht, h.fields t ht⟩⟩)

/-! ## Messages and models -/

theorem Message.describes_toJson_iff {m : Message} :
    Describes schemaDefinitions (.reference "Message") m.toJson ↔ m.name ≠ "" := by
  have fields : Describes schemaDefinitions (.array .string) (.array (m.fields.map .string)) :=
    describes_array_map_iff.mpr ⟨Nat.zero_le _, fun field _ => describes_string field⟩
  rw [describes_reference_iff rfl, toJson, accepts_record_pair (by decide), and_iff_left fields,
    Describes, accepts_string_iff]
  simp [Nat.one_le_iff_ne_zero]

/-- **What the schema asks of a model**: that messages have names, and what it asks of the
processes. -/
theorem Model.describes_toJson_iff {m : Model} :
    Describes schemaDefinitions schema m.toJson ↔
      (∀ message ∈ m.messages, message.name ≠ "") ∧ ∀ p ∈ m.processes, p.Publishable := by
  rw [Describes, toJson, schema, accepts_record_pair (by decide), describes_array_map_iff,
    describes_array_map_iff]
  simp only [Message.describes_toJson_iff, Process.describes_toJson_iff, Nat.zero_le, true_and]

/-- A process without states is turned down, and so is a member that the schema does not name. -/
example : accepts schemaDefinitions schemaDefinitions.length schema
      (toJson ⟨[], [{ vars := [], initial := 0, states := [], transitions := [] }]⟩) = false ∧
    accepts schemaDefinitions schemaDefinitions.length schema (.object [("messages", .array []),
      ("processes", .array []), ("version", .int 1)]) = false := by
  constructor <;> cbv

/-! ## Declared models -/

namespace Declaration

open Outcome

variable {leniency l : Leniency} {elements : List Node} {p : Process}

/-- **A process that is declared by a well spelt list** is as the schema asks. -/
theorem publishable_of_ofElements [Text.Alphabet]
    (h : ofElements leniency elements = .ok (.process p))
    (spelt : ∀ n ∈ elements, n.WellSpelt l) : p.Publishable := by
  obtain ⟨body, d, within, drawn, graph, -⟩ := exists_graph h
  have derived := Statement.extendAll_empty_eq_done_iff.mp drawn
  have marked := Node.forall_marked (Statement.spells_of_extendAll drawn) fun n hn =>
    spelt n (within hn)
  have wf := (derived.tidy Draft.tidy_empty).wellFormed
  have ids : ∀ s ∈ d.states, 1 ≤ s.id := fun s hs => by
    obtain ⟨i, hi, rfl⟩ := List.getElem_of_mem hs
    rw [wf.numbered i hi]
    exact Nat.le_add_left 1 i
  refine ⟨?_, ?_, ?_, ?_, ?_, ?_, ?_⟩
  · rw [graph.initial]
    exact Nat.le_refl 1
  all_goals simp only [graph.states, graph.transitions]
  · exact ids
  · intro t ht
    obtain ⟨s, hs, same⟩ := wf.sources t ht
    exact same ▸ ids s hs
  · intro t ht
    obtain ⟨s, hs, same⟩ := wf.targets t ht
    exact same ▸ ids s hs
  · exact List.ne_nil_of_mem wf.start
  · rintro ⟨id, name⟩ hs n rfl
    exact derived.marked_names marked n (Draft.mem_names.mpr ⟨id, hs⟩)
  · exact derived.marked_fields marked

end Declaration

namespace Model

variable {leniency : Leniency} {source : String} {m : Model}

/-- **Every model that a source text declares is as the schema says**: its JSON form has no members
but those that the schema names and all that it requires, and the values of all members are as they
should be. This is so in whatever order the members of the objects are written. -/
theorem describes_of_ofSource [Text.Alphabet] (h : ofSource leniency source = .ok m) :
    Describes schemaDefinitions schema m.toJson ∧
      ∀ j, m.toJson.Alike j → Describes schemaDefinitions schema j := by
  have described : Describes schemaDefinitions schema m.toJson := by
    refine describes_toJson_iff.mpr ⟨fun message hm empty => ?_, fun p hp => ?_⟩
    · have nonempty := (Message.nameable_of_ofSource h message hm).name.word.nonempty
      exact nonempty (empty ▸ rfl)
    · rw [ofSource_eq_bind] at h
      obtain ⟨nodes, read, declared⟩ := Outcome.bind_eq_ok_iff.mp h
      obtain ⟨elements, hn, hread⟩ := exists_elements declared hp
      obtain ⟨inner⟩ := wellSpelt_of_nodesOfSource read _ hn
      exact Declaration.publishable_of_ofElements hread inner
  exact ⟨described, fun _ alike => (describes_iff_of_alike alike).mp described⟩

/-- A process with a name and a variable, a label that is never placed, a branch, and messages with
and without values. -/
theorem describes_of_ofSource_shop : ∃ m, m.processes.length = 1 ∧
    ofSource { unplacedLabels := true } "(defmessage Pay) (defprocess shop :vars (x)
      (if x (goto :a) (!send Pay :sum (- x 1))) (?receive Ack))" = .ok m ∧
    Describes schemaDefinitions schema m.toJson ∧
    ∀ j, m.toJson.Alike j → Describes schemaDefinitions schema j := by
  have read : ofSource { unplacedLabels := true } "(defmessage Pay) (defprocess shop :vars (x)
      (if x (goto :a) (!send Pay :sum (- x 1))) (?receive Ack))" = .ok ⟨[⟨"Pay", []⟩], [{
        name := some "shop"
        vars := [⟨0, "x"⟩]
        initial := 1
        states := [⟨1, some ":start"⟩, ⟨2, none⟩, ⟨3, some ":a"⟩, ⟨4, none⟩, ⟨5, none⟩, ⟨6, none⟩,
          ⟨7, none⟩]
        transitions := [⟨1, 2, .entering (.reference "x")⟩, ⟨2, 3, {}⟩,
          ⟨1, 4, .passing (.reference "x")⟩,
          ⟨4, 5, .sending "Pay"
            (.ofList [(":sum", .list [.reference "-", .reference "x", .int 1])])⟩,
          ⟨5, 6, .leaving "elseend"⟩, ⟨6, 7, .receiving "Ack"⟩] }]⟩ := by
    decide +kernel
  exact ⟨_, rfl, read, describes_of_ofSource read⟩

end Model

end ProtocolGraph
