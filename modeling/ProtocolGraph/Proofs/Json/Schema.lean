import Mathlib.Algebra.Ring.Int.Defs
import ProtocolGraph.Proofs.Json.Alike

/-!
# Schemas of JSON values

A `Schema` describes JSON values, as far as the published schemas need it: which members an object
must and may have, how long arrays and strings are at least, how strings and keys start, which
numbers are integers and how small they may be. A schema may refer to others by name, also to
itself.

* `Describes` says that a schema describes a value, and `accepts` decides it. Before a part of the
  value is looked at only so many references are followed as there are definitions, so a definition
  that refers to nothing but itself describes nothing.
* `accepts_object_iff`, `accepts_array_iff` and their kin: what the kinds of schemas ask for.
* `describes_iff_of_alike`: the order in which objects list their members has no part in it.
-/

namespace ProtocolGraph.Json

/-- A description of JSON values. -/
inductive Schema where
  /-- The values that the definition of this name describes. -/
  | reference (name : String)
  /-- The values that exactly one of the schemas describes. -/
  | oneOf (alternatives : List Schema)
  /-- These strings. -/
  | enum (values : List String)
  /-- The strings of at least so many characters, the first of which is this one. -/
  | string (minLength : Nat := 0) (first : Option Char := none)
  /-- The integers that are not below the minimum. -/
  | integer (minimum : Option Int := none)
  /-- The arrays of at least so many items, each of which the schema describes. -/
  | array (items : Schema) (minItems : Nat := 0)
  /-- The objects that have the required members, and no members but properties, each of which is
  described by its schema. -/
  | object (required : List String) (properties : List (String × Schema))
  /-- The objects whose keys all start with this character, and whose members are all described by
  the schema. -/
  | map (first : Option Char) (values : Schema)

namespace Schema

/-- The text starts with the character, if there is one. -/
def startsWith (first : Option Char) (text : String) : Bool :=
  first.all fun c => text.toList.head? == some c

theorem startsWith_iff {first : Option Char} {text : String} :
    startsWith first text = true ↔ ∀ c ∈ first, text.toList.head? = some c := by
  cases first <;> simp [startsWith]

/-- The schema describes the value. No more than `depth` references are followed before a part of
the value is looked at. -/
def accepts (definitions : List (String × Schema)) (depth : Nat) (schema : Schema) (j : Json) :
    Bool :=
  match schema, j, depth with
  | .reference name, j, depth + 1 =>
    match definitions.lookup name with
    | some schema => accepts definitions depth schema j
    | none => false
  | .oneOf alternatives, j, depth =>
    (alternatives.filter fun schema => accepts definitions depth schema j).length == 1
  | .enum values, .string value, _ => values.contains value
  | .string minLength first, .string value, _ =>
    decide (minLength ≤ value.length) && startsWith first value
  | .integer minimum, .number mantissa places, _ =>
    decide ((10 ^ places : Int) ∣ mantissa) && minimum.all fun n => n * 10 ^ places ≤ mantissa
  | .array item minItems, .array items, _ =>
    decide (minItems ≤ items.length) &&
      items.attach.all fun ⟨j, _⟩ => accepts definitions definitions.length item j
  | .object required properties, .object members, _ =>
    required.all (fun key => (Entries.keys members).contains key) &&
      members.attach.all fun ⟨(key, j), _⟩ =>
        match properties.lookup key with
        | some schema => accepts definitions definitions.length schema j
        | none => false
  | .map first values, .object members, _ =>
    members.attach.all fun ⟨(key, j), _⟩ =>
      startsWith first key && accepts definitions definitions.length values j
  | _, _, _ => false
termination_by (sizeOf j, depth, sizeOf schema)
decreasing_by
  · exact .right _ (.left _ _ (Nat.lt_succ_self _))
  · have := List.sizeOf_lt_of_mem ‹schema ∈ alternatives›
    refine .right _ (.right _ ?_)
    simp only [Schema.oneOf.sizeOf_spec]
    omega
  · exact .left _ _ (sizeOf_lt_of_mem_items ‹j ∈ items›)
  all_goals exact .left _ _ (sizeOf_lt_of_mem_members ‹(key, j) ∈ members›)

/-- **The schema describes the value**, where schemas are referred to by these definitions. -/
def Describes (definitions : List (String × Schema)) (schema : Schema) (j : Json) : Prop :=
  accepts definitions definitions.length schema j = true

variable {definitions : List (String × Schema)} {depth : Nat} {schema : Schema} {j : Json}

/-! ## What is asked for -/

theorem describes_reference_iff {name : String} (h : definitions.lookup name = some schema) :
    Describes definitions (.reference name) j ↔
      accepts definitions (definitions.length - 1) schema j = true := by
  cases definitions with
  | nil => cases h
  | cons definition rest => rw [Describes, List.length_cons, accepts, h, Nat.add_sub_cancel]

theorem accepts_oneOf (alternatives : List Schema) :
    accepts definitions depth (.oneOf alternatives) j =
      ((alternatives.filter fun s => accepts definitions depth s j).length == 1) := by
  rw [accepts]

theorem accepts_enum_iff {values : List String} {value : String} :
    accepts definitions depth (.enum values) (.string value) = true ↔ value ∈ values := by
  rw [accepts, List.contains_iff_mem]

theorem accepts_string_iff {minLength : Nat} {first : Option Char} {value : String} :
    accepts definitions depth (.string minLength first) (.string value) = true ↔
      minLength ≤ value.length ∧ ∀ c ∈ first, value.toList.head? = some c := by
  rw [accepts, Bool.and_eq_true, decide_eq_true_eq, startsWith_iff]

/-- Any string will do if nothing is asked of it. -/
theorem describes_string (value : String) : Describes definitions .string (.string value) :=
  accepts_string_iff.mpr ⟨Nat.zero_le _, nofun⟩

theorem accepts_integer_iff {minimum : Option Int} {n : Int} :
    accepts definitions depth (.integer minimum) (.int n) = true ↔ ∀ m ∈ minimum, m ≤ n := by
  rw [int, accepts]
  cases minimum <;> simp

theorem accepts_array_iff {item : Schema} {minItems : Nat} {items : List Json} :
    accepts definitions depth (.array item minItems) (.array items) = true ↔
      minItems ≤ items.length ∧ ∀ j ∈ items, Describes definitions item j := by
  rw [accepts]
  simp [Describes]

theorem describes_array_map_iff {α : Type} {write : α → Json} {item : Schema} {minItems : Nat}
    {as : List α} : Describes definitions (.array item minItems) (.array (as.map write)) ↔
      minItems ≤ as.length ∧ ∀ a ∈ as, Describes definitions item (write a) := by
  rw [Describes, accepts_array_iff, List.length_map, List.forall_mem_map]

/-- The member is a property, and described by its schema. -/
def Admits (definitions properties : List (String × Schema)) (member : String × Json) : Prop :=
  ∃ schema, properties.lookup member.1 = some schema ∧ Describes definitions schema member.2

theorem admits_iff {properties : List (String × Schema)} {key : String}
    (h : properties.lookup key = some schema) :
    Admits definitions properties (key, j) ↔ Describes definitions schema j := by
  simp [Admits, h]

theorem accepts_object_iff {required : List String} {properties : List (String × Schema)}
    {members : List (String × Json)} :
    accepts definitions depth (.object required properties) (.object members) = true ↔
      required ⊆ Entries.keys members ∧ ∀ m ∈ members, Admits definitions properties m := by
  have admits : ∀ (found : Option Schema) (j : Json), (match found with
      | some schema => accepts definitions definitions.length schema j
      | none => false) = true ↔ ∃ schema, found = some schema ∧ Describes definitions schema j := by
    rintro (_ | schema) j <;> simp [Describes]
  rw [accepts]
  simp [admits, Admits, List.subset_def]

theorem accepts_map_iff {first : Option Char} {values : Schema} {members : List (String × Json)} :
    accepts definitions depth (.map first values) (.object members) = true ↔
      ∀ m ∈ members, (∀ c ∈ first, m.1.toList.head? = some c) ∧
        Describes definitions values m.2 := by
  rw [accepts]
  simp [startsWith_iff, Describes]

/-! ## The order of members -/

/-- What holds of all of one list holds of all of the other, if it does of any two that are
related. -/
theorem forall_mem_iff_of_forall₂ {α β : Type} {R : α → β → Prop} {p : α → Prop} {q : β → Prop}
    {as : List α} {bs : List β} (h : List.Forall₂ R as bs)
    (same : ∀ a ∈ as, ∀ b, R a b → (p a ↔ q b)) : (∀ a ∈ as, p a) ↔ ∀ b ∈ bs, q b := by
  induction h with
  | nil => exact ⟨nofun, nofun⟩
  | cons head _ ih =>
    obtain ⟨first, others⟩ := List.forall_mem_cons.mp same
    rw [List.forall_mem_cons, List.forall_mem_cons, first _ head, ih others]

/-- The same for members of objects that are alike, with the order out of account. -/
theorem forall_member_iff_of_alike {members members' : List (String × Json)}
    {p : String × Json → Prop} (h : (Json.object members).Alike (.object members'))
    (same : ∀ m ∈ members, ∀ w, m.2.Alike w → (p m ↔ p (m.1, w))) :
    (∀ m ∈ members, p m) ↔ ∀ m ∈ members', p m := by
  cases h with
  | object each order =>
    simp only [← order.mem_iff]
    refine forall_mem_iff_of_forall₂ each fun m hm m' alike => ?_
    obtain ⟨value⟩ := alike
    exact same _ hm _ value

theorem keys_perm_of_alike {members members' : List (String × Json)}
    (h : (Json.object members).Alike (.object members')) :
    (Entries.keys members).Perm (Entries.keys members') := by
  cases h with
  | object each order => exact keys_eq_of_alike each ▸ order.map Prod.fst

/-- Values that are alike meet the same schemas. -/
theorem accepts_iff_of_alike (schema : Schema) (depth : Nat) (j : Json) {j' : Json}
    (h : j.Alike j') :
    accepts definitions depth schema j = true ↔ accepts definitions depth schema j' = true := by
  cases schema with
  | reference name =>
    cases left : depth with
    | zero => simp [accepts]
    | succ fewer =>
      rw [accepts, accepts]
      cases definitions.lookup name with
      | none => exact Iff.rfl
      | some schema => exact accepts_iff_of_alike schema fewer j h
  | oneOf alternatives =>
    have same : ∀ s ∈ alternatives, accepts definitions depth s j =
        accepts definitions depth s j' :=
      fun s _ => Bool.eq_iff_iff.mpr (accepts_iff_of_alike s depth j h)
    rw [accepts_oneOf, accepts_oneOf, List.filter_congr same]
  | enum | string | integer => cases h <;> simp [accepts]
  | array item minItems =>
    cases h with
    | @array items _ each =>
      rw [accepts_array_iff, accepts_array_iff, each.length_eq]
      exact and_congr_right fun _ => forall_mem_iff_of_forall₂ each fun j hj j' alike =>
        accepts_iff_of_alike item definitions.length j alike
    | _ => simp [accepts]
  | object required properties =>
    cases h with
    | @object members _ members' each order =>
      have alike : (Json.object members).Alike (.object members') := .object each order
      have keys := keys_perm_of_alike alike
      rw [accepts_object_iff, accepts_object_iff]
      refine and_congr ⟨fun h => List.Subset.trans h keys.subset,
        fun h => List.Subset.trans h keys.symm.subset⟩ ?_
      refine forall_member_iff_of_alike alike fun m hm w value => exists_congr fun schema =>
        and_congr_right fun _ => ?_
      exact accepts_iff_of_alike schema definitions.length m.2 value
    | _ => simp [accepts]
  | map first values =>
    cases h with
    | @object members _ members' each order =>
      rw [accepts_map_iff, accepts_map_iff]
      refine forall_member_iff_of_alike (.object each order) fun m hm w value =>
        and_congr_right fun _ => ?_
      exact accepts_iff_of_alike values definitions.length m.2 value
    | _ => simp [accepts]
termination_by (sizeOf j, depth, sizeOf schema)
decreasing_by
  · exact .right _ (.left _ _ (left ▸ Nat.lt_succ_self _))
  · have := List.sizeOf_lt_of_mem ‹s ∈ alternatives›
    refine .right _ (.right _ ?_)
    simp only [Schema.oneOf.sizeOf_spec]
    omega
  · exact .left _ _ (sizeOf_lt_of_mem_items hj)
  all_goals exact .left _ _ (sizeOf_lt_of_mem_members hm)

/-- **The order of members has no part in what a schema describes.** -/
theorem describes_iff_of_alike {j' : Json} (h : j.Alike j') :
    Describes definitions schema j ↔ Describes definitions schema j' :=
  accepts_iff_of_alike schema definitions.length j h

end Schema

end ProtocolGraph.Json
