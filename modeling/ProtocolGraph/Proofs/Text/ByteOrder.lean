import Mathlib.Tactic.SplitIfs

/-!
# The order of texts

Texts are ordered by their code points, and this is the order of the bytes that encode them.

* `encode_append_lt`: the encodings of two different characters differ before either of them ends,
  and the greater character has the greater byte there.
* **`bytes_le_iff`**: a text is not above another one exactly when its bytes are not.
-/

namespace ProtocolGraph.Text

/-- The bytes that encode a text in UTF-8. -/
def bytes (s : String) : List UInt8 :=
  s.toUTF8.data.toList

theorem bytes_eq (s : String) : bytes s = s.toList.flatMap String.utf8EncodeChar := by
  rw [bytes, String.toUTF8_eq_toByteArray, ← String.utf8Encode_toList, List.utf8Encode,
    List.toList_data_toByteArray]

theorem cons_ofNat_lt_cons_ofNat {a b : Nat} (ha : a < 256) (hb : b < 256) (as bs : List UInt8) :
    UInt8.ofNat a :: as < UInt8.ofNat b :: bs ↔ a < b ∨ a = b ∧ as < bs := by
  have eq_iff : UInt8.ofNat a = UInt8.ofNat b ↔ a = b := by
    rw [← UInt8.toNat_inj, UInt8.toNat_ofNat_of_lt' ha, UInt8.toNat_ofNat_of_lt' hb]
  rw [List.cons_lt_cons_iff, UInt8.ofNat_lt_iff_lt ha hb, eq_iff]

/-- What follows the encodings of two different characters plays no part in their order. -/
theorem encode_append_lt {c d : Char} (h : c < d) (as bs : List UInt8) :
    String.utf8EncodeChar c ++ as < String.utf8EncodeChar d ++ bs := by
  have hlt : c.val.toNat < d.val.toNat := h
  have hd : d.val.toNat < 1114112 := by
    rcases d.valid with hd | ⟨-, hd⟩
    · exact Nat.lt_trans hd (by decide)
    · exact hd
  unfold String.utf8EncodeChar
  generalize c.val.toNat = v at *
  generalize d.val.toNat = w at *
  have third : ∀ n, n / 4096 = n / 64 / 64 := fun n => by omega
  have fourth : ∀ n, n / 262144 = n / 64 / 64 / 64 := fun n => by omega
  simp only [third, fourth]
  split_ifs <;> simp only [List.cons_append, List.nil_append] <;>
    simp (disch := omega) only [cons_ofNat_lt_cons_ofNat]
  all_goals omega

theorem flatMap_encode_lt {cs ds : List Char} (h : cs < ds) :
    cs.flatMap String.utf8EncodeChar < ds.flatMap String.utf8EncodeChar := by
  induction h with
  | @nil d ds =>
    rw [List.flatMap_cons]
    obtain ⟨b, bs, hb⟩ := List.exists_cons_of_ne_nil (String.utf8EncodeChar_ne_nil (c := d))
    rw [hb]
    exact .nil
  | cons _ ih => exact List.append_left_lt ih
  | rel h => exact encode_append_lt h _ _

theorem bytes_lt_of_lt {s t : String} (h : s < t) : bytes s < bytes t := by
  rw [bytes_eq, bytes_eq]
  exact flatMap_encode_lt h

/-- **The order of texts is that of their bytes.** -/
theorem bytes_le_iff {s t : String} : bytes s ≤ bytes t ↔ s ≤ t := by
  constructor
  · intro h
    rw [← String.not_lt]
    exact fun hlt => List.not_lt.mpr h (bytes_lt_of_lt hlt)
  · intro h
    by_cases heq : s = t
    · rw [heq]
      exact List.le_refl _
    · exact List.le_of_lt (bytes_lt_of_lt (Std.lt_of_le_of_ne h heq))

end ProtocolGraph.Text
