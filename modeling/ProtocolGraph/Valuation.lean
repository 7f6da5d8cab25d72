import ProtocolGraph.Expression

/-!
# Valuations

A `Valuation` gives the fields of a message their values: it maps finitely many keywords to
expressions. The entries are kept strictly sorted by keyword, by code points, so two valuations are
equal exactly when they give every keyword the same value (`ext`).

`insert` writes one entry (`find?_insert`).
-/

namespace ProtocolGraph

/-- The values of the fields of a message. -/
structure Valuation where
  /-- The entries, by increasing keyword. -/
  entries : List (String × Expression)
  /-- No keyword occurs twice or out of order. -/
  sorted : entries.Pairwise (·.1 < ·.1)
deriving DecidableEq

namespace Valuation

/-- The valuation without entries. -/
def empty : Valuation :=
  ⟨[], .nil⟩

instance : EmptyCollection Valuation :=
  ⟨empty⟩

/-- The value of a keyword. -/
def find? (v : Valuation) (key : String) : Option Expression :=
  v.entries.lookup key

/-- Writes an entry at its place in sorted entries, over the one with its keyword if there is
one. -/
def insertEntry (key : String) (value : Expression) :
    List (String × Expression) → List (String × Expression)
  | [] => [(key, value)]
  | e :: rest =>
    if key < e.1 then (key, value) :: e :: rest
    else if key = e.1 then (key, value) :: rest
    else e :: insertEntry key value rest

theorem mem_insertEntry {key : String} {value : Expression} {e : String × Expression} :
    ∀ {entries : List (String × Expression)},
      e ∈ insertEntry key value entries → e = (key, value) ∨ e ∈ entries
  | [], h => Or.inl (List.mem_singleton.mp h)
  | f :: rest, h => by
    rw [insertEntry] at h
    split at h
    · exact List.mem_cons.mp h
    · split at h
      · exact (List.mem_cons.mp h).imp id (List.mem_cons_of_mem f)
      · rcases List.mem_cons.mp h with rfl | h
        · exact Or.inr List.mem_cons_self
        · exact (mem_insertEntry h).imp id (List.mem_cons_of_mem f)

theorem sorted_insertEntry (key : String) (value : Expression) :
    ∀ {entries : List (String × Expression)}, entries.Pairwise (·.1 < ·.1) →
      (insertEntry key value entries).Pairwise (·.1 < ·.1)
  | [], _ => List.pairwise_singleton _ _
  | e :: rest, h => by
    have below := (List.pairwise_cons.mp h).1
    have tail := (List.pairwise_cons.mp h).2
    rw [insertEntry]
    split
    · rename_i hlt
      refine List.pairwise_cons.mpr ⟨fun f hf => ?_, h⟩
      rcases List.mem_cons.mp hf with rfl | hf
      · exact hlt
      · exact String.lt_trans hlt (below f hf)
    · rename_i hge
      split
      · rename_i heq
        exact List.pairwise_cons.mpr ⟨fun f hf => heq ▸ below f hf, tail⟩
      · rename_i hne
        refine List.pairwise_cons.mpr ⟨fun f hf => ?_, sorted_insertEntry key value tail⟩
        rcases mem_insertEntry hf with rfl | hf
        · exact Std.lt_of_le_of_ne (String.not_lt.mp hge) (Ne.symm hne)
        · exact below f hf

/-- The valuation with one entry written. -/
def insert (key : String) (value : Expression) (v : Valuation) : Valuation :=
  ⟨insertEntry key value v.entries, sorted_insertEntry key value v.sorted⟩

/-- The valuation of a list of entries; of two entries for one keyword the later counts. -/
def ofList (entries : List (String × Expression)) : Valuation :=
  entries.foldl (fun v e => v.insert e.1 e.2) empty

/-! ## Lemmas -/

@[simp] theorem find?_empty (key : String) : (∅ : Valuation).find? key = none := rfl

theorem lookup_cons (k : String) (e : String × Expression) (rest : List (String × Expression)) :
    (e :: rest).lookup k = if k = e.1 then some e.2 else rest.lookup k := by
  by_cases h : k = e.1
  · rw [if_pos h, List.lookup_cons, beq_iff_eq.mpr h]
  · rw [if_neg h, List.lookup_cons, beq_false_of_ne h]

theorem lookup_insertEntry (key : String) (value : Expression) (k : String) :
    ∀ entries : List (String × Expression),
      (insertEntry key value entries).lookup k = if k = key then some value else entries.lookup k
  | [] => by rw [insertEntry, lookup_cons]
  | e :: rest => by
    rw [insertEntry]
    split
    · rw [lookup_cons]
    · split
      · rename_i heq
        rw [lookup_cons, lookup_cons, ← heq]
        by_cases h : k = key
        · rw [if_pos h, if_pos h]
        · rw [if_neg h, if_neg h, if_neg h]
      · rename_i hne
        rw [lookup_cons, lookup_cons, lookup_insertEntry key value k rest]
        by_cases h : k = key
        · have other : k ≠ e.1 := fun he => hne (h.symm.trans he)
          rw [if_neg other, if_pos h, if_pos h]
        · rw [if_neg h, if_neg h]

/-- Reading after a write. -/
theorem find?_insert (v : Valuation) (key : String) (value : Expression) (k : String) :
    (v.insert key value).find? k = if k = key then some value else v.find? k :=
  lookup_insertEntry key value k v.entries

/-- A keyword below all those of the entries has no value. -/
theorem lookup_eq_none_of_lt {k : String} :
    ∀ {entries : List (String × Expression)}, (∀ e ∈ entries, k < e.1) → entries.lookup k = none
  | [], _ => rfl
  | e :: rest, h => by
    have head : k ≠ e.1 := fun hk => String.lt_irrefl e.1 (hk ▸ h e List.mem_cons_self)
    rw [lookup_cons, if_neg head]
    exact lookup_eq_none_of_lt fun f hf => h f (List.mem_cons_of_mem e hf)

/-- Where sorted entries agree on the keyword of the first, it is not below those of the others. -/
theorem not_lt_of_lookup_eq {a b : String × Expression} {as bs : List (String × Expression)}
    (sorted : (b :: bs).Pairwise (·.1 < ·.1))
    (h : (a :: as).lookup a.1 = (b :: bs).lookup a.1) : ¬a.1 < b.1 := by
  intro hlt
  have below : ∀ e ∈ b :: bs, a.1 < e.1 := fun e he => by
    rcases List.mem_cons.mp he with rfl | he
    · exact hlt
    · exact String.lt_trans hlt ((List.pairwise_cons.mp sorted).1 e he)
  rw [lookup_eq_none_of_lt below, lookup_cons, if_pos rfl] at h
  cases h

theorem eq_of_lookup_eq :
    ∀ {as bs : List (String × Expression)}, as.Pairwise (·.1 < ·.1) → bs.Pairwise (·.1 < ·.1) →
      (∀ k, as.lookup k = bs.lookup k) → as = bs
  | [], [], _, _, _ => rfl
  | [], b :: bs, _, _, h => by
    have := h b.1
    rw [lookup_cons, if_pos rfl] at this
    cases this
  | a :: as, [], _, _, h => by
    have := h a.1
    rw [lookup_cons, if_pos rfl] at this
    cases this
  | a :: as, b :: bs, ha, hb, h => by
    have key : a.1 = b.1 :=
      String.le_antisymm (String.not_lt.mp (not_lt_of_lookup_eq ha (h b.1).symm))
        (String.not_lt.mp (not_lt_of_lookup_eq hb (h a.1)))
    have value : a.2 = b.2 := by
      have := h a.1
      rw [lookup_cons, lookup_cons, if_pos rfl, if_pos key] at this
      exact Option.some.inj this
    have tail : as = bs := by
      refine eq_of_lookup_eq (List.pairwise_cons.mp ha).2 (List.pairwise_cons.mp hb).2 fun k => ?_
      by_cases hk : k = a.1
      · rw [hk, lookup_eq_none_of_lt (List.pairwise_cons.mp ha).1, key,
          lookup_eq_none_of_lt (List.pairwise_cons.mp hb).1]
      · have := h k
        rwa [lookup_cons, lookup_cons, if_neg hk, if_neg (key ▸ hk)] at this
    rw [tail, Prod.ext key value]

/-- Valuations that give every keyword the same value are equal. -/
@[ext] theorem ext {v w : Valuation} (h : ∀ k, v.find? k = w.find? k) : v = w := by
  obtain ⟨as, ha⟩ := v
  obtain ⟨bs, hb⟩ := w
  obtain rfl : as = bs := eq_of_lookup_eq ha hb h
  rfl

end Valuation

end ProtocolGraph
