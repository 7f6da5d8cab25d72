import Mathlib.Data.List.Nodup

/-!
# Entries by key

A finite map is listed by its entries, each a key and a value. Where no key occurs twice, the value
of a key is known from the entries in whatever order they are listed.

* `lookup_eq_some_iff`: a key has the value of its entry.
* `lookup_of_perm`: the order of the entries has no part in it.
-/

namespace ProtocolGraph.Entries

variable {α β : Type} {entries entries' : List (α × β)} {key : α} {value : β}

/-- The keys, in the order of the entries. -/
def keys (entries : List (α × β)) : List α :=
  entries.map Prod.fst

@[simp] theorem keys_cons (e : α × β) (rest : List (α × β)) :
    keys (e :: rest) = e.1 :: keys rest := rfl

@[simp] theorem keys_append (as bs : List (α × β)) : keys (as ++ bs) = keys as ++ keys bs :=
  List.map_append

variable [DecidableEq α]

theorem lookup_cons (e : α × β) (rest : List (α × β)) (key : α) :
    (e :: rest).lookup key = if key = e.1 then some e.2 else rest.lookup key := by
  by_cases h : key = e.1
  · rw [if_pos h, List.lookup_cons, beq_iff_eq.mpr h]
  · rw [if_neg h, List.lookup_cons, beq_false_of_ne h]

/-- **A key has the value of its entry**, if it has only one. -/
theorem lookup_eq_some_iff (distinct : (keys entries).Nodup) :
    entries.lookup key = some value ↔ (key, value) ∈ entries := by
  induction entries with
  | nil => exact ⟨nofun, nofun⟩
  | cons e rest ih =>
    obtain ⟨fresh, distinct⟩ := List.nodup_cons.mp distinct
    rw [lookup_cons]
    by_cases h : key = e.1
    · subst h
      have other : (e.1, value) ∉ rest := fun he => fresh (List.mem_map.mpr ⟨_, he, rfl⟩)
      rw [if_pos rfl, List.mem_cons, Option.some.injEq, or_iff_left other]
      exact ⟨fun he => Prod.ext rfl he.symm, fun he => (congrArg Prod.snd he).symm⟩
    · rw [if_neg h, ih distinct, List.mem_cons]
      exact ⟨Or.inr, fun he => he.resolve_left fun he => h (congrArg Prod.fst he)⟩

/-- **The order of entries** whose keys differ has no part in the value of a key. -/
theorem lookup_of_perm (order : entries.Perm entries') (distinct : (keys entries).Nodup) :
    entries.lookup key = entries'.lookup key := by
  have distinct' : (keys entries').Nodup := (order.map Prod.fst).nodup_iff.mp distinct
  refine Option.ext fun value => ?_
  rw [lookup_eq_some_iff distinct, lookup_eq_some_iff distinct', order.mem_iff]

end ProtocolGraph.Entries
