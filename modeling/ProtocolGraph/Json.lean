import ProtocolGraph.Text.Numeral

/-!
# JSON values

`Json` is the data that models and options are exchanged in. A number is a whole number divided by a
power of ten, so an integer is a number without decimal places; that is how an integer that is
written is told apart from a fraction.

A value that is read as something has to be that and nothing else: `int?`, `natBelow?` and their kin
answer `none` otherwise. Members of an object that nobody asks for are ignored, and an optional one
that is `null` counts as absent (`optional?`). How a member is found is left to an `Access`: what is
read relies on no more than that what is found is there, and that it is found where no key occurs
twice, as in a `serde_json::Map`.
-/

namespace ProtocolGraph

/-- A JSON value. -/
inductive Json where
  /-- The value `null`. -/
  | null
  /-- A truth value. -/
  | bool (value : Bool)
  /-- The number `mantissa` divided by ten to the power `places`. -/
  | number (mantissa : Int) (places : Nat)
  /-- A string. -/
  | string (value : String)
  /-- An array. -/
  | array (items : List Json)
  /-- An object, member by member. -/
  | object (members : List (String × Json))

namespace Json

instance : Inhabited Json := ⟨.null⟩

/-- An integer as a number. -/
def int (n : Int) : Json :=
  .number n 0

/-! ## Reading -/

/-- A truth value. -/
def bool? : Json → Option Bool
  | .bool value => some value
  | _ => none

/-- A string. -/
def string? : Json → Option String
  | .string value => some value
  | _ => none

/-- An integer. -/
def int? : Json → Option Int
  | .number n 0 => some n
  | _ => none

/-- A natural number less than `bound`. -/
def natBelow? (bound : Nat) (j : Json) : Option Nat :=
  j.int?.bind fun n => if 0 ≤ n ∧ n < bound then some n.toNat else none

/-- An integer that fits 64 bits with a sign. -/
def int64? (j : Json) : Option Int64 :=
  j.int?.bind Text.fit64?

/-- The items of an array, each read in the same way. -/
def array? {α : Type} (read : Json → Option α) : Json → Option (List α)
  | .array items => items.mapM read
  | _ => none

/-- The members of an object. -/
def object? : Json → Option (List (String × Json))
  | .object members => some members
  | _ => none

/-- How a value is looked for by its key. As an inferred parameter it need not be named wherever
JSON is read. -/
class Access where
  /-- A value with this key among the members. -/
  find? : String → List (String × Json) → Option Json
  /-- What is found is there. -/
  mem : ∀ {key members v}, find? key members = some v → (key, v) ∈ members
  /-- What is there is found if all keys differ. -/
  found : ∀ {key members v}, (members.map Prod.fst).Nodup → (key, v) ∈ members →
    find? key members = some v

/-- The member of an object with this key. -/
def member? [Access] (key : String) : Json → Option Json
  | .object members => Access.find? key members
  | _ => none

/-- A member that must be there. -/
def required? [Access] {α : Type} (key : String) (read : Json → Option α) (j : Json) : Option α :=
  (j.member? key).bind read

/-- A member that may be absent or `null`. -/
def optional? [Access] {α : Type} (key : String) (read : Json → Option α) (j : Json) :
    Option (Option α) :=
  match j.member? key with
  | none => some none
  | some .null => some none
  | some value => (read value).map some

/-- The first value with this key. -/
def first? (key : String) (members : List (String × Json)) : Option Json :=
  (members.find? (·.1 == key)).map Prod.snd

theorem mem_of_first? {key : String} {members : List (String × Json)} {v : Json}
    (h : first? key members = some v) : (key, v) ∈ members := by
  obtain ⟨e, he, rfl⟩ := Option.map_eq_some_iff.mp h
  have same : e.1 = key := by simpa using List.find?_some he
  exact same ▸ List.mem_of_find?_eq_some he

theorem first?_of_mem {key : String} {members : List (String × Json)} {v : Json}
    (distinct : (members.map Prod.fst).Nodup) (h : (key, v) ∈ members) :
    first? key members = some v := by
  induction members with
  | nil => cases h
  | cons e rest ih =>
    obtain ⟨fresh, distinct⟩ := List.nodup_cons.mp distinct
    cases h with
    | head => simp [first?]
    | tail _ h =>
      have other : (e.1 == key) = false := beq_false_of_ne fun same =>
        fresh (List.mem_map.mpr ⟨_, h, same.symm⟩)
      rw [first?, List.find?_cons, other]
      exact ih distinct h

/-- The first value of a key is the one that is found. -/
instance first : Access where
  find? := first?
  mem := mem_of_first?
  found := first?_of_mem

/-! ## Writing -/

/-- A member of an object that is left out if there is no value. -/
def optional {α : Type} (key : String) (write : α → Json) : Option α → List (String × Json)
  | none => []
  | some a => [(key, write a)]

/-! ## Lemmas -/

theorem sizeOf_lt_of_mem_items {j : Json} {items : List Json} (h : j ∈ items) :
    sizeOf j < sizeOf (array items) := by
  have smaller := List.sizeOf_lt_of_mem h
  simp only [array.sizeOf_spec]
  omega

theorem sizeOf_lt_of_mem_members {m : String × Json} {members : List (String × Json)}
    (h : m ∈ members) : sizeOf m.2 < sizeOf (object members) := by
  have smaller := List.sizeOf_lt_of_mem h
  obtain ⟨key, value⟩ := m
  simp only [Prod.mk.sizeOf_spec] at smaller
  simp only [object.sizeOf_spec]
  omega

theorem sizeOf_lt_of_member? [Access] {key : String} {j v : Json} (h : j.member? key = some v) :
    sizeOf v < sizeOf j := by
  cases j with
  | object members => exact sizeOf_lt_of_mem_members (Access.mem h)
  | null | bool _ | number _ _ | string _ | array _ => cases h

@[simp] theorem int?_int (n : Int) : (int n).int? = some n := rfl

theorem natBelow?_int {n bound : Nat} (h : n < bound) :
    (int n).natBelow? bound = some n := by
  have : (0 : Int) ≤ n ∧ (n : Int) < bound := ⟨Int.natCast_nonneg n, Int.ofNat_lt.mpr h⟩
  simp [natBelow?, this]

@[simp] theorem int64?_int (n : Int64) : (int n.toInt).int64? = some n := by
  rw [int64?, int?_int, Option.bind_some, Text.fit64?_eq_some_iff]

end Json

end ProtocolGraph
