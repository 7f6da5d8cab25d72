import Mathlib.Data.List.Perm.Basic
import ProtocolGraph.Proofs.Entries
import ProtocolGraph.Valuation

/-!
# Valuations and their entries

A valuation lists its entries by increasing keyword, so each keyword has one entry at most.

* `Valuation.find?_eq_some_iff`: a keyword has the value of its entry.
* **`Valuation.ofList_of_perm`**: a valuation is made of its entries, in whatever order they are
  written.
-/

namespace ProtocolGraph.Valuation

open Entries

variable {entries : List (String × Expression)} {key : String} {e : Expression} {val : Valuation}

theorem nodup_keys (val : Valuation) : (keys val.entries).Nodup := by
  refine List.pairwise_map.mpr (val.sorted.imp fun h same => ?_)
  exact String.lt_irrefl _ (same ▸ h)

theorem find?_eq_some_iff : val.find? key = some e ↔ (key, e) ∈ val.entries :=
  lookup_eq_some_iff val.nodup_keys

/-- Entries that are written one after the other, each key once, are found behind those that were
there. -/
theorem find?_foldl_insert (distinct : (keys entries).Nodup) (val : Valuation) :
    (entries.foldl (fun val e => val.insert e.1 e.2) val).find? key = some e ↔
      (key, e) ∈ entries ∨ key ∉ keys entries ∧ val.find? key = some e := by
  induction entries generalizing val with
  | nil => simp [keys]
  | cons head rest ih =>
    obtain ⟨name, value⟩ := head
    obtain ⟨fresh, distinct⟩ := List.nodup_cons.mp distinct
    rw [List.foldl_cons, ih distinct, find?_insert]
    by_cases h : key = name
    · subst h
      have last : key ∉ keys rest := fresh
      have unread : (key, e) ∉ rest := fun he => last (List.mem_map.mpr ⟨_, he, rfl⟩)
      simp [unread, last, eq_comm]
    · simp [h]

/-- **A valuation is made of its entries**, in whatever order they are listed. -/
theorem ofList_of_perm (order : entries.Perm val.entries) : ofList entries = val := by
  have distinct : (keys entries).Nodup := (order.map Prod.fst).nodup_iff.mpr val.nodup_keys
  refine ext fun key => Option.ext fun e => ?_
  rw [ofList, find?_foldl_insert distinct, order.mem_iff, ← find?_eq_some_iff]
  exact or_iff_left fun h => nomatch h.2

end ProtocolGraph.Valuation
