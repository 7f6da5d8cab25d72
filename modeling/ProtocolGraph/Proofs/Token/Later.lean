import ProtocolGraph.Proofs.Token.Cutting

/-!
# Tokens further on

What a text is cut into does not depend on the place of the text, apart from the offsets:
`scanFrom_add` moves them all by the same number of bytes.

* **`scan_append`**: behind a text that is cut, and blanks, another text is cut as it is alone, only
  that many bytes later.
-/

namespace ProtocolGraph.Token

/-- The same token, so many bytes later. -/
def later (k : Nat) (t : Token) : Token :=
  { t with offset := t.offset + k }

/-- The same fault, so many bytes later. -/
def Fault.later (k : Nat) : Fault → Fault
  | .unknownCharacter c offset => .unknownCharacter c (offset + k)
  | .unterminatedText offset => .unterminatedText (offset + k)

/-- The same outcome, so many bytes later. -/
def outcomeLater (k : Nat) (outcome : Except Fault (List Token)) : Except Fault (List Token) :=
  (outcome.mapError (Fault.later k)).map (List.map (later k))

variable {l : Leniency} {offset k : Nat} {c : Char} {cs : List Char}

theorem outcomeLater_map_cons (t : Token) (outcome : Except Fault (List Token)) :
    outcomeLater k (outcome.map (t :: ·)) = (outcomeLater k outcome).map (t.later k :: ·) := by
  cases outcome <;> rfl

variable [Text.Alphabet]

/-- **The place of a text** only moves the offsets. -/
theorem scanFrom_add (l : Leniency) (offset k : Nat) (cs : List Char) :
    scanFrom l (offset + k) cs = outcomeLater k (scanFrom l offset cs) := by
  induction offset, cs using scanFrom.induct l with
  | case1 offset =>
    rw [scanFrom, scanFrom]
    rfl
  | case2 offset c rest blank ih =>
    rw [scanFrom_blank blank, scanFrom_blank blank, ← ih, Nat.add_right_comm]
  | case3 offset c rest visible mark ih =>
    rw [scanFrom_mark visible mark, scanFrom_mark visible mark, outcomeLater_map_cons, ← ih,
      Nat.add_right_comm]
    rfl
  | case4 offset c rest visible unmarked quote unclosed tolerated =>
    rw [scanFrom_open visible unmarked quote unclosed,
      scanFrom_open visible unmarked quote unclosed, if_pos tolerated, if_pos tolerated]
    rfl
  | case5 offset c rest visible unmarked quote unclosed strict =>
    rw [scanFrom_open visible unmarked quote unclosed,
      scanFrom_open visible unmarked quote unclosed, if_neg strict, if_neg strict]
    rfl
  | case6 offset c rest visible unmarked quote body close after closed text ih =>
    rw [scanFrom_closed visible unmarked quote closed,
      scanFrom_closed visible unmarked quote closed, outcomeLater_map_cons, ← ih,
      Nat.add_right_comm]
    rfl
  | case7 offset c rest visible unmarked unquoted printable text ih =>
    rw [scanFrom_word visible unmarked unquoted printable,
      scanFrom_word visible unmarked unquoted printable, outcomeLater_map_cons, ← ih,
      Nat.add_right_comm]
    rfl
  | case8 offset c rest visible unmarked unquoted unprintable =>
    rw [scanFrom_unknown visible unmarked unquoted unprintable,
      scanFrom_unknown visible unmarked unquoted unprintable]
    rfl

/-- **Behind a text that is cut, and blanks,** another text is cut as it is alone, only later. -/
theorem scan_append {s w s' : String} {tokens : List Token} (closed : l.unterminatedText = false)
    (nonempty : w ≠ "") (blank : Text.Blank w.toList) (cut : scan l s = .ok tokens) :
    scan l (s ++ w ++ s') =
      (outcomeLater (s ++ w).utf8ByteSize (scan l s')).map (tokens ++ ·) := by
  have divided := scan_eq_ok_iff.mp cut
  have start : Text.byteLength s.toList + Text.byteLength w.toList = (s ++ w).utf8ByteSize := by
    rw [Text.byteLength_toList, Text.byteLength_toList, String.utf8ByteSize_append]
  have apart : ∀ c ∈ (w.toList ++ s'.toList).head?, isWordCharacter c = true →
      ¬WordEndsAt tokens (0 + Text.byteLength s.toList) := by
    intro c hc wordy
    have characters : w.toList ≠ [] := mt String.toList_eq_nil_iff.mp nonempty
    obtain ⟨b, bs, characters⟩ := List.exists_cons_of_ne_nil characters
    rw [characters] at hc blank
    obtain rfl : b = c := Option.some.inj hc
    exact (not_isWordCharacter_of_isBlank (blank b List.mem_cons_self) wordy).elim
  rw [scan, String.toList_append, String.toList_append, List.append_assoc,
    divided.scanFrom_append l _ (fun tolerated => nomatch closed.symm.trans tolerated) apart,
    scanFrom_gap blank, Nat.add_assoc, start, scanFrom_add]
  rfl

end ProtocolGraph.Token
