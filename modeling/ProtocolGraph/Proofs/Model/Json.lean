import ProtocolGraph.Model.Json
import ProtocolGraph.Proofs.Json.Alike
import ProtocolGraph.Proofs.Valuation

/-!
# Models are read back from their JSON form

What `toJson` writes, `ofJson` reads as what it was, in whatever order the members of the objects
are listed and however they are looked for (`Json.Access`). So a value that is absent, one that is
empty and one that is `null` are never confused, and the JSON forms of two models differ in more
than an order.

* `Json.string?_of_alike`, `Json.array?_of_alike` and their kin: the parts that all forms are made
  of.
* `Expression.ofJson_of_alike`: expressions, by recursion on their elements.
* `Valuation.ofJson_of_alike`: valuations, the entries of which may come in any order.
* **`Model.ofJson_toJson`** is the result for models, whose numbers must be below `idBound`
  (`Model.InRange`).
-/

namespace ProtocolGraph

/-! ## Parts -/

namespace Json

variable {α β : Type} {j : Json}

theorem string?_of_alike {s : String} (h : (string s).Alike j) : j.string? = some s := by
  cases h
  rfl

theorem eq_of_alike_int {n : Int} (h : (int n).Alike j) : j = int n := by
  unfold int at h
  cases h
  rfl

theorem int64?_of_alike {n : Int64} (h : (int n.toInt).Alike j) : j.int64? = some n := by
  rw [eq_of_alike_int h, int64?_int]

theorem id?_of_alike {n : Nat} (bound : n < idBound) (h : (int n).Alike j) : j.id? = some n := by
  rw [eq_of_alike_int h, id?, natBelow?_int bound]

/-- What is read one by one is read together. -/
theorem mapM_eq_some {read : α → Option β} {as : List α} {bs : List β}
    (each : List.Forall₂ (fun a b => read a = some b) as bs) : as.mapM read = some bs := by
  induction each with
  | nil => rfl
  | cons head _ ih => simp [List.mapM_cons, head, ih]

theorem array?_of_alike {write : α → Json} {read : Json → Option α} {as : List α}
    (each : ∀ a ∈ as, ∀ j, (write a).Alike j → read j = some a)
    (h : (array (as.map write)).Alike j) : j.array? read = some as := by
  cases h with
  | array items =>
    refine mapM_eq_some ?_
    rw [List.forall₂_map_left_iff] at items
    induction items with
    | nil => exact .nil
    | cons head _ ih =>
      obtain ⟨first, others⟩ := List.forall_mem_cons.mp each
      exact .cons (first _ head) (ih others)

end Json

open Json Entries

variable {j v : Json} {tag : String}

/-! ## Expressions -/

namespace Expression

/-- The expression of this type and this value. -/
def ofTagged [Access] (tag : String) (value : Json) : Option Expression :=
  match tag, value with
  | "ref", value => value.string?.map .reference
  | "int", value => value.int64?.map .int
  | "list", .array items => (ofJsonAll items).map .list
  | _, _ => none

theorem ofJson_eq [Access] (type : (j.member? "type").bind string? = some tag)
    (value : j.member? "value" = some v) : ofJson j = ofTagged tag v := by
  rw [ofJson]
  split
  case h_1 type' value' | h_2 type' value' | h_3 type' value' =>
    cases type.symm.trans type'
    cases value.symm.trans value'
    rfl
  case h_4 =>
    unfold ofTagged
    split <;> simp_all

/-- The type and the value of an expression are found in any order. -/
theorem ofJson_of_tagged [Access]
    (h : (Json.object [("type", .string tag), ("value", v)]).Alike j) :
    ∃ w, v.Alike w ∧ ofJson j = ofTagged tag w := by
  have distinct : (keys [("type", Json.string tag), ("value", v)]).Nodup := by
    simp [keys]
  obtain ⟨w, value, alike⟩ := exists_alike (member?_rel h distinct "value")
  obtain ⟨u, found, type⟩ := exists_alike (member?_rel h distinct "type")
  refine ⟨w, alike, ofJson_eq ?_ value⟩
  rw [found]
  exact string?_of_alike type

mutual

/-- **Expressions are read back.** -/
theorem ofJson_of_alike [Access] :
    ∀ (e : Expression) {j : Json}, e.toJson.Alike j → ofJson j = some e
  | .reference name, j, h => by
    obtain ⟨w, alike, read⟩ := ofJson_of_tagged h
    exact read.trans (congrArg (Option.map _) (string?_of_alike alike))
  | .int value, j, h => by
    obtain ⟨w, alike, read⟩ := ofJson_of_tagged h
    exact read.trans (congrArg (Option.map _) (int64?_of_alike alike))
  | .list elements, j, h => by
    obtain ⟨w, alike, read⟩ := ofJson_of_tagged h
    cases alike with
    | array each =>
      exact read.trans (congrArg (Option.map _) (ofJsonAll_of_alike elements each))

theorem ofJsonAll_of_alike [Access] : ∀ (es : List Expression) {items : List Json},
    List.Forall₂ Alike (toJsonAll es) items → ofJsonAll items = some es
  | [], _, .nil => by rw [ofJsonAll]
  | e :: es, _, .cons head tail => by
    rw [ofJsonAll, ofJson_of_alike e head]
    exact congrArg (Option.map _) (ofJsonAll_of_alike es tail)

end

theorem ofJson_null [Access] : ofJson .null = none := by
  rw [ofJson]
  rfl

end Expression

/-! ## Valuations -/

theorem Valuation.ofJson_of_alike [Access] {val : Valuation} (h : val.toJson.Alike j) :
    ofJson j = some val := by
  cases h with
  | @object _ middle members each order =>
    have read : List.Forall₂
        (fun m e => (Expression.ofJson m.2).map (fun e => (m.1, e)) = some e) middle
        val.entries := by
      rw [List.forall₂_map_left_iff] at each
      refine (each.imp fun e m h => ?_).flip
      obtain ⟨value⟩ := h
      exact congrArg (Option.map _) (Expression.ofJson_of_alike e.2 value)
    obtain ⟨entries, found, same⟩ := List.perm_comp_forall₂ order.symm read
    simp only [ofJson, object?, mapM_eq_some found, ofList_of_perm same, bind, Option.bind, pure]

/-! ## Processes -/

theorem Action.ofJson_of_alike [Access] :
    ∀ {a : Action}, a.toJson.Alike j → Action.ofJson j = some a
  | .send message, h | .receive message, h => by
    have distinct : ["kind", "message"].Nodup := by decide
    have kind := required?_of_alike h distinct "kind" rfl fun _ => string?_of_alike
    have name := required?_of_alike h distinct "message" rfl fun _ => string?_of_alike
    rw [Action.ofJson, kind, name]
    rfl

theorem State.ofJson_of_alike [Access] {s : State} (bound : s.id < idBound)
    (h : s.toJson.Alike j) : State.ofJson j = some s := by
  have names := keys_optional_sublist "name" .string s.name
  have distinct := (names.cons_cons "id").nodup (by decide)
  have id := required?_of_alike h distinct "id" rfl fun _ => id?_of_alike bound
  have name := optional?_of_alike h distinct "name" (lookup_optional "name" s.name "name") rfl
    fun _ _ _ => string?_of_alike
  rw [State.ofJson, id, name]
  rfl

theorem Transition.ofJson_of_alike [Access] {t : Transition} (source_bound : t.source < idBound)
    (target_bound : t.target < idBound) (h : t.toJson.Alike j) : ofJson j = some t := by
  have names := keys_optional_append_sublist "action" Action.toJson t.label.action
    (keys_optional_append_sublist "valuation" Valuation.toJson t.label.valuation
      (keys_optional_sublist "guard" Expression.toJson t.label.guard))
  have distinct := ((names.cons_cons "to").cons_cons "from").nodup (by decide)
  have source := required?_of_alike h distinct "from" rfl fun _ => id?_of_alike source_bound
  have target := required?_of_alike h distinct "to" rfl fun _ => id?_of_alike target_bound
  have action := optional?_of_alike (a := t.label.action) h distinct "action"
    (by simp [lookup_cons, List.lookup_append, lookup_optional]) rfl
    fun _ _ _ => Action.ofJson_of_alike
  have valuation := optional?_of_alike (a := t.label.valuation) h distinct "valuation"
    (by simp [lookup_cons, List.lookup_append, lookup_optional]) rfl
    fun _ _ _ => Valuation.ofJson_of_alike
  have guard := optional?_of_alike (a := t.label.guard) h distinct "guard"
    (by simp [lookup_cons, List.lookup_append, lookup_optional]) Expression.ofJson_null
    fun e _ _ => Expression.ofJson_of_alike e
  rw [ofJson, source, target, action, valuation, guard]
  rfl

theorem Variable.ofJson_of_alike [Access] {v : Variable} (bound : v.id < idBound)
    (h : v.toJson.Alike j) : Variable.ofJson j = some v := by
  have distinct : ["id", "name"].Nodup := by decide
  have id := required?_of_alike h distinct "id" rfl fun _ => id?_of_alike bound
  have name := required?_of_alike h distinct "name" rfl fun _ => string?_of_alike
  rw [Variable.ofJson, id, name]
  rfl

/-- The numbers of the process fit 32 bits. -/
structure Process.InRange (p : Process) : Prop where
  /-- So does the number of the state in which it starts, -/
  initial : p.initial < idBound
  /-- those of its variables, -/
  vars : ∀ v ∈ p.vars, v.id < idBound
  /-- those of its states, -/
  states : ∀ s ∈ p.states, s.id < idBound
  /-- and those at both ends of its transitions. -/
  transitions : ∀ t ∈ p.transitions, t.source < idBound ∧ t.target < idBound

theorem Process.ofJson_of_alike [Access] {p : Process} (bounds : p.InRange) (h : p.toJson.Alike j) :
    Process.ofJson j = some p := by
  have rest : (keys [("vars", array (p.vars.map Variable.toJson)), ("initial", int p.initial),
      ("states", array (p.states.map State.toJson)),
      ("transitions", array (p.transitions.map Transition.toJson))]).Sublist
      ["vars", "initial", "states", "transitions"] := .refl _
  have distinct := (keys_optional_append_sublist "name" .string p.name rest).nodup (by decide)
  have name := optional?_of_alike (a := p.name) h distinct "name"
    (by simp [lookup_cons, List.lookup_append, lookup_optional]) rfl fun _ _ _ => string?_of_alike
  have vars := required?_of_alike h distinct "vars"
    (by simp [lookup_cons, List.lookup_append, lookup_optional])
    fun _ => array?_of_alike fun v hv _ => Variable.ofJson_of_alike (bounds.vars v hv)
  have initial := required?_of_alike h distinct "initial"
    (by simp [lookup_cons, List.lookup_append, lookup_optional])
    fun _ => id?_of_alike bounds.initial
  have states := required?_of_alike h distinct "states"
    (by simp [lookup_cons, List.lookup_append, lookup_optional])
    fun _ => array?_of_alike fun s hs _ => State.ofJson_of_alike (bounds.states s hs)
  have transitions := required?_of_alike h distinct "transitions"
    (by simp [lookup_cons, List.lookup_append, lookup_optional])
    fun _ => array?_of_alike fun t ht _ => Transition.ofJson_of_alike
      (bounds.transitions t ht).1 (bounds.transitions t ht).2
  rw [Process.ofJson, name, vars, initial, states, transitions]
  rfl

/-! ## Messages and models -/

theorem Message.ofJson_of_alike [Access] {m : Message} (h : m.toJson.Alike j) :
    Message.ofJson j = some m := by
  have distinct : ["name", "fields"].Nodup := by decide
  have name := required?_of_alike h distinct "name" rfl fun _ => string?_of_alike
  have fields := required?_of_alike h distinct "fields" rfl
    fun _ => array?_of_alike fun _ _ _ => string?_of_alike
  rw [Message.ofJson, name, fields]
  rfl

/-- All numbers of the model fit 32 bits. -/
def Model.InRange (m : Model) : Prop :=
  ∀ p ∈ m.processes, p.InRange

theorem Model.ofJson_of_alike [Access] {m : Model} (bounds : m.InRange) (h : m.toJson.Alike j) :
    Model.ofJson j = some m := by
  have distinct : ["messages", "processes"].Nodup := by decide
  have messages := required?_of_alike h distinct "messages" rfl
    fun _ => array?_of_alike fun _ _ _ => Message.ofJson_of_alike
  have processes := required?_of_alike h distinct "processes" rfl
    fun _ => array?_of_alike fun p hp _ => Process.ofJson_of_alike (bounds p hp)
  rw [Model.ofJson, messages, processes]
  rfl

/-- **A model is read back from its JSON form**, whichever strings, integers, absent and empty
parts it has, in whatever order the members of the objects are listed and however they are looked
for. So two models never have the same JSON form. -/
theorem Model.ofJson_toJson [Access] {m : Model} (bounds : m.InRange) :
    ofJson m.toJson = some m ∧ (∀ j, m.toJson.Alike j → ofJson j = some m) ∧
      ∀ m' : Model, m'.InRange → m.toJson.Alike m'.toJson → m = m' := by
  refine ⟨ofJson_of_alike bounds (.refl _), fun _ => ofJson_of_alike bounds, ?_⟩
  intro m' bounds' same
  have read : ofJson m'.toJson = some m := ofJson_of_alike bounds same
  have read' : ofJson m'.toJson = some m' := ofJson_of_alike bounds' (.refl _)
  exact Option.some.inj (read.symm.trans read')

/-- A model in which what is absent, what is empty and what is the largest number stand side by
side. -/
def Model.extremes : Model where
  messages := [⟨"", ["", ""]⟩]
  processes := [
    { name := some "", vars := [⟨0xffffffff, ""⟩], initial := 0
      states := [⟨0, none⟩, ⟨0xffffffff, some ""⟩]
      transitions := [
        { source := 0, target := 0xffffffff },
        { source := 0xffffffff, target := 0
          label := {
            action := some (.send ""), valuation := some ∅
            guard := some (.list [.list [], .int (-0x8000000000000000), .reference ""]) } },
        { source := 0, target := 0
          label := { valuation := some (.ofList [("", .list [.list []]), ("a", .int 0)]) } }] },
    { vars := [], initial := 0xffffffff, states := [], transitions := [] }]

theorem Model.ofJson_toJson_extremes :
    extremes.InRange ∧ ofJson extremes.toJson = some extremes := by
  have bounds : extremes.InRange := by
    refine List.forall_mem_cons.mpr
      ⟨⟨?_, ?_, ?_, ?_⟩, List.forall_mem_singleton.mpr ⟨?_, ?_, ?_, ?_⟩⟩
    all_goals decide
  exact ⟨bounds, (ofJson_toJson bounds).1⟩

end ProtocolGraph
