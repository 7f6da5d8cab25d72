import Mathlib.Data.List.Forall2
import ProtocolGraph.Json
import ProtocolGraph.Proofs.Entries

/-!
# JSON values up to the order of members

The members of an object have no order: two values are `Alike` when they differ in nothing but the
order in which objects list their members.

* `Alike.refl`: equal values are alike.
* `member?_rel`: in objects that are alike a key has values that are alike, or in both of them none.
* `required?_of_alike`, `optional?_of_alike`: so what is read off a member does not depend on the
  order.
-/

namespace ProtocolGraph.Json

open Entries

mutual

/-- The values are the same, apart from the order of the members of objects. -/
inductive Alike : Json → Json → Prop
  | null : Alike .null .null
  | bool (value) : Alike (.bool value) (.bool value)
  | number (mantissa places) : Alike (.number mantissa places) (.number mantissa places)
  | string (value) : Alike (.string value) (.string value)
  | array {items items'} (each : List.Forall₂ Alike items items') :
      Alike (.array items) (.array items')
  | object {members middle members'} (each : List.Forall₂ AlikeMember members middle)
      (order : middle.Perm members') : Alike (.object members) (.object members')

/-- The members have one key, and values that are alike. -/
inductive AlikeMember : String × Json → String × Json → Prop
  | member {key j j'} (value : Alike j j') : AlikeMember (key, j) (key, j')

end

/-- **Equal values are alike.** -/
theorem Alike.refl : ∀ j : Json, j.Alike j
  | .null => .null
  | .bool value => .bool value
  | .number mantissa places => .number mantissa places
  | .string value => .string value
  | .array items => .array (List.forall₂_same.mpr fun j _ => Alike.refl j)
  | .object members =>
    .object (List.forall₂_same.mpr fun ⟨_, j⟩ _ => .member (Alike.refl j)) (.refl members)
termination_by j => sizeOf j
decreasing_by
  · exact sizeOf_lt_of_mem_items ‹j ∈ items›
  · exact sizeOf_lt_of_mem_members ‹(_, j) ∈ members›

/-! ## Members -/

variable {α : Type} {members members' : List (String × Json)} {key : String} {j v : Json}
  {read : Json → Option α} {write : α → Json}

theorem member?_object [Access] (distinct : (keys members).Nodup) (key : String) :
    (object members).member? key = members.lookup key := by
  refine Option.ext fun v => ?_
  rw [lookup_eq_some_iff distinct]
  exact ⟨Access.mem, Access.found distinct⟩

/-- An optional member is found by its key alone. -/
theorem lookup_optional (name : String) (a : Option α) (key : String) :
    (optional name write a).lookup key = if key = name then a.map write else none := by
  cases a with
  | none => exact (ite_self none).symm
  | some a => exact lookup_cons (name, write a) [] key

theorem forall_mem_optional {name : String} {a : Option α} {p : String × Json → Prop} :
    (∀ m ∈ optional name write a, p m) ↔ ∀ b ∈ a, p (name, write b) := by
  cases a <;> simp [optional]

theorem keys_optional_sublist (name : String) (write : α → Json) (a : Option α) :
    (keys (optional name write a)).Sublist [name] := by
  cases a with
  | none => exact List.nil_sublist _
  | some a => exact List.Sublist.refl _

theorem keys_optional_append_sublist (name : String) (write : α → Json) (a : Option α)
    {names : List String} (rest : (keys members).Sublist names) :
    (keys (optional name write a ++ members)).Sublist (name :: names) := by
  rw [keys_append]
  exact (keys_optional_sublist name write a).append rest

theorem keys_eq_of_alike (each : List.Forall₂ AlikeMember members members') :
    keys members = keys members' := by
  induction each with
  | nil => rfl
  | cons head _ ih =>
    obtain ⟨_⟩ := head
    exact congrArg (_ :: ·) ih

theorem lookup_rel_of_forall₂ (each : List.Forall₂ AlikeMember members members') :
    Option.Rel Alike (members.lookup key) (members'.lookup key) := by
  induction each with
  | nil => exact .none
  | cons head _ ih =>
    obtain ⟨value⟩ := head
    rw [lookup_cons, lookup_cons]
    split
    · exact .some value
    · exact ih

/-- **Members are found alike** in objects that are alike. -/
theorem member?_rel [Access] (h : (object members).Alike j) (distinct : (keys members).Nodup)
    (key : String) : Option.Rel Alike (members.lookup key) (j.member? key) := by
  cases h with
  | object each order =>
    have between : (keys _).Nodup := keys_eq_of_alike each ▸ distinct
    have distinct' := (order.map Prod.fst).nodup_iff.mp between
    rw [member?_object distinct', ← lookup_of_perm order between]
    exact lookup_rel_of_forall₂ each

theorem exists_alike {found : Option Json} (h : Option.Rel Alike (some v) found) :
    ∃ w, found = some w ∧ v.Alike w := by
  cases h with
  | some alike => exact ⟨_, rfl, alike⟩

/-! ## Reading members -/

/-- A member is read if every value like it is. -/
theorem required?_of_alike [Access] {a : α} (h : (object members).Alike j)
    (distinct : (keys members).Nodup) (key : String) (found : members.lookup key = some v)
    (each : ∀ w, v.Alike w → read w = some a) : j.required? key read = some a := by
  obtain ⟨w, hw, alike⟩ := exists_alike (found ▸ member?_rel h distinct key)
  rw [required?, hw]
  exact each w alike

/-- A member that may be absent is read if every value like it is, since none of them is `null`. -/
theorem optional?_of_alike [Access] {a : Option α} (h : (object members).Alike j)
    (distinct : (keys members).Nodup) (key : String) (found : members.lookup key = a.map write)
    (refuses : read .null = none) (each : ∀ b ∈ a, ∀ w, (write b).Alike w → read w = some b) :
    j.optional? key read = some a := by
  have related := member?_rel h distinct key
  rw [found] at related
  unfold optional?
  cases a with
  | none =>
    cases hw : j.member? key with
    | none => rfl
    | some w =>
      rw [hw] at related
      cases related
  | some b =>
    obtain ⟨w, hw, alike⟩ := exists_alike related
    have hread := each b rfl w alike
    rw [hw]
    cases w with
    | null => cases refuses.symm.trans hread
    | _ => exact congrArg (Option.map some) hread

end ProtocolGraph.Json
