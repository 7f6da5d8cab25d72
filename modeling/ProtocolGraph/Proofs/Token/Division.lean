import Mathlib.Data.List.TakeWhile
import ProtocolGraph.Proofs.Outcome
import ProtocolGraph.Proofs.Token.Scan

/-!
# How a text divides into tokens

`Token.Divides` says how a text divides into tokens with gaps between them: a gap holds blanks only,
and a token is a mark, a text between quotes, or a word that is as long as it can be. A `Lexeme` is
the text of a token, seen in front of what comes after it.

* `Divides.length_le`: there are no more tokens than bytes.
* `Lexeme.scanFrom_append`: a token is cut off, whatever comes after it.
* **`Divides.scanFrom_append`**: a text that divides is cut so, also in front of more text, unless a
  word goes on there.
-/

namespace ProtocolGraph

/-! ## Bytes -/

namespace Text

theorem byteLength_toList (s : String) : byteLength s.toList = s.utf8ByteSize := by
  have bytes : ∀ cs : List Char, (String.ofList cs).utf8ByteSize = byteLength cs := fun cs => by
    induction cs with
    | nil => rfl
    | cons c cs ih =>
      rw [← List.singleton_append, String.ofList_append, String.utf8ByteSize_append, ih,
        ← String.singleton_eq_ofList, String.utf8ByteSize_singleton]
      rfl
  rw [← bytes, String.ofList_toList]

theorem byteLength_pos {cs : List Char} (h : cs ≠ []) : 0 < byteLength cs := by
  obtain ⟨c, rest, rfl⟩ := List.exists_cons_of_ne_nil h
  exact Nat.lt_of_lt_of_le c.utf8Size_pos (Nat.le_add_right _ _)

theorem toList_eq_cons_iff {c : Char} {cs : List Char} {s : String} :
    s.toList = c :: cs ↔ s = String.singleton c ++ String.ofList cs := by
  rw [← String.toList_inj, String.toList_append, String.toList_singleton, String.toList_ofList]
  rfl

/-- The characters are blanks. -/
def Blank (cs : List Char) : Prop :=
  ∀ c ∈ cs, isBlank c = true

instance : DecidablePred Blank :=
  fun cs => decidable_of_iff (cs.all isBlank = true) List.all_eq_true

end Text

namespace Token

/-! ## Divisions -/

/-- A word in front of these characters ends there. -/
def EndsWord (after : List Char) : Prop :=
  ∀ c ∈ after.head?, Text.isBlank c = true ∨ isPunctuation c = true

/-- One of the tokens is a word that ends at this offset. -/
def WordEndsAt (tokens : List Token) (offset : Nat) : Prop :=
  ∃ t ∈ tokens, t.kind = .word ∧ t.offset + t.text.utf8ByteSize = offset

section

variable [Text.Alphabet]

/-- The characters are a word. -/
structure IsWord (cs : List Char) : Prop where
  nonempty : cs ≠ []
  visible : ∀ c ∈ cs, isWordCharacter c = true
  unquoted : cs.head? ≠ some '"'

theorem isWord_iff {cs : List Char} : IsWord cs ↔
    cs ≠ [] ∧ cs.all isWordCharacter = true ∧ cs.head? ≠ some '"' :=
  ⟨fun ⟨nonempty, visible, unquoted⟩ => ⟨nonempty, List.all_eq_true.mpr visible, unquoted⟩,
    fun ⟨nonempty, visible, unquoted⟩ => ⟨nonempty, List.all_eq_true.mp visible, unquoted⟩⟩

instance : DecidablePred IsWord :=
  fun _ => decidable_of_iff _ isWord_iff.symm

/-- The characters `text` are a token of this kind, when `after` comes behind them. -/
inductive Lexeme : Kind → (text after : List Char) → Prop
  | mark {c after} (mark : isPunctuation c = true) : Lexeme .punctuation [c] after
  | quoted {body after} (plain : '"' ∉ body) : Lexeme .quoted ('"' :: (body ++ ['"'])) after
  | word {text after} (word : IsWord text) (ends : EndsWord after) : Lexeme .word text after

/-- The characters, which stand `offset` bytes into the source, divide into these tokens and gaps
between them. If this is tolerated, the last token may be a text whose closing quote is missing. -/
inductive Divides (leniency : Leniency) : (offset : Nat) → List Char → List Token → Prop
  | gap {offset gap} (blank : Text.Blank gap) : Divides leniency offset gap []
  | token {offset gap kind text after tokens} (blank : Text.Blank gap)
      (lexeme : Lexeme kind text after)
      (rest : Divides leniency (offset + Text.byteLength gap + Text.byteLength text) after tokens) :
      Divides leniency offset (gap ++ (text ++ after))
        (⟨kind, offset + Text.byteLength gap, String.ofList text⟩ :: tokens)
  | unclosed {offset gap body} (tolerated : leniency.unterminatedText = true)
      (blank : Text.Blank gap) (plain : '"' ∉ body) :
      Divides leniency offset (gap ++ '"' :: body)
        [⟨.quoted, offset + Text.byteLength gap, String.ofList ('"' :: body)⟩]

end

variable {l l' : Leniency} {offset : Nat} {c : Char} {cs gap text body after rest : List Char}
  {kind : Kind} {t : Token} {tokens : List Token} {fault : Fault}

/-! ## Characters -/

theorem isQuote_iff : isQuote c = true ↔ c = '"' := by
  simp [isQuote]

theorem quote_visible : ¬Text.isBlank '"' = true := by decide

theorem quote_unmarked : ¬isPunctuation '"' = true := by decide

theorem unquoted_of_plain (plain : '"' ∉ body) : ∀ c ∈ body, (!isQuote c) = true := by
  intro c hc
  rw [Bool.not_eq_true', ← Bool.not_eq_true, isQuote_iff]
  rintro rfl
  exact plain hc

theorem plain_of_unquoted (h : ∀ c ∈ body, (!isQuote c) = true) : '"' ∉ body :=
  fun quoted => Bool.false_ne_true (h '"' quoted)

theorem endsWord_nil : EndsWord [] :=
  nofun

theorem endsWord_cons_iff :
    EndsWord (c :: cs) ↔ Text.isBlank c = true ∨ isPunctuation c = true := by
  simp [EndsWord]

theorem wordEndsAt_cons_iff : WordEndsAt (t :: tokens) offset ↔
    t.kind = .word ∧ t.offset + t.text.utf8ByteSize = offset ∨ WordEndsAt tokens offset := by
  simp [WordEndsAt]

theorem blank_nil : Text.Blank [] :=
  nofun

theorem takeWhile_append_of_stop {p : Char → Bool} (all : ∀ c ∈ cs, p c = true)
    (stop : ∀ c ∈ rest.head?, ¬p c = true) : (cs ++ rest).takeWhile p = cs := by
  rw [List.takeWhile_append_of_pos all]
  cases rest with
  | nil => simp
  | cons c rest => simp [stop c rfl]

theorem dropWhile_append_of_stop {p : Char → Bool} (all : ∀ c ∈ cs, p c = true)
    (stop : ∀ c ∈ rest.head?, ¬p c = true) : (cs ++ rest).dropWhile p = rest := by
  rw [List.dropWhile_append_of_pos all]
  cases rest with
  | nil => rfl
  | cons c rest => simp [stop c rfl]

variable [Text.Alphabet]

theorem not_isWordCharacter_of_isBlank (h : Text.isBlank c = true) : ¬isWordCharacter c = true := by
  simp [isWordCharacter, h]

theorem not_isWordCharacter_of_isPunctuation (h : isPunctuation c = true) :
    ¬isWordCharacter c = true := by
  simp [isWordCharacter, h]

theorem isWordCharacter_iff : isWordCharacter c = true ↔
    Text.Alphabet.printable c = true ∧ ¬Text.isBlank c = true ∧ ¬isPunctuation c = true := by
  simp [isWordCharacter, and_assoc]

/-- Of the visible characters of ASCII all but the marks can stand in a word. -/
theorem isWordCharacter_of_ascii (low : 0x20 < c.toNat) (high : c.toNat ≤ 0x7E)
    (unmarked : ¬isPunctuation c = true) : isWordCharacter c = true := by
  have visible : ¬Text.isBlank c = true := by
    simp only [Text.isBlank, Text.blankRanges, List.any_cons, List.any_nil, Bool.or_eq_true,
      Bool.false_eq_true, or_false, Text.CodeRange.contains_iff]
    omega
  exact isWordCharacter_iff.mpr
    ⟨Text.Alphabet.ascii c (Nat.le_of_lt low) high, visible, unmarked⟩

theorem isWordCharacter_quote : isWordCharacter '"' = true :=
  isWordCharacter_of_ascii (by decide) (by decide) quote_unmarked

/-! ## Tokens by themselves -/

theorem lexeme_word_iff : Lexeme .word text after ↔ IsWord text ∧ EndsWord after := by
  constructor
  · rintro (_ | _ | ⟨word, ends⟩)
    exact ⟨word, ends⟩
  · exact fun ⟨word, ends⟩ => .word word ends

theorem Lexeme.nil (h : Lexeme kind text after) : Lexeme kind text [] := by
  cases h with
  | mark mark => exact .mark mark
  | quoted plain => exact .quoted plain
  | word word => exact .word word endsWord_nil

theorem Lexeme.ne_nil (h : Lexeme kind text after) : text ≠ [] := by
  cases h with
  | mark | quoted => exact List.cons_ne_nil _ _
  | word word => exact word.nonempty

/-- A token is one in front of any other text too, if no word goes on there. -/
theorem Lexeme.of_nil (h : Lexeme kind text []) (ends : kind = .word → EndsWord after) :
    Lexeme kind text after := by
  cases h with
  | mark mark => exact .mark mark
  | quoted plain => exact .quoted plain
  | word word => exact .word word (ends rfl)

/-- A token in front, with no gap before it. -/
theorem Divides.cons (lexeme : Lexeme kind text []) (ends : kind = .word → EndsWord after)
    (rest : Divides l (offset + Text.byteLength text) after tokens) :
    Divides l offset (text ++ after) (⟨kind, offset, String.ofList text⟩ :: tokens) :=
  .token blank_nil (lexeme.of_nil ends) rest

/-- The token is a lexeme, or a text whose closing quote is missing, if this is tolerated. -/
def Spelt (leniency : Leniency) (t : Token) : Prop :=
  Lexeme t.kind t.text.toList [] ∨ leniency.unterminatedText = true ∧ t.kind = .quoted ∧
    ∃ body, '"' ∉ body ∧ t.text = String.ofList ('"' :: body)

/-- The tokens into which a text divides are spelt as tokens. -/
theorem Divides.spelt (h : Divides l offset cs tokens) : ∀ t ∈ tokens, t.Spelt l := by
  induction h with
  | gap blank => exact nofun
  | token blank lexeme rest ih =>
    refine List.forall_mem_cons.mpr ⟨Or.inl ?_, ih⟩
    rw [String.toList_ofList]
    exact lexeme.nil
  | unclosed tolerated blank plain =>
    exact List.forall_mem_singleton.mpr (Or.inr ⟨tolerated, rfl, _, plain, rfl⟩)

/-- A text divides into no more tokens than it has bytes. -/
theorem Divides.length_le (h : Divides l offset cs tokens) :
    tokens.length ≤ Text.byteLength cs := by
  induction h with
  | gap => exact Nat.zero_le _
  | token blank lexeme rest ih =>
    have text_pos := Text.byteLength_pos lexeme.ne_nil
    rw [List.length_cons, Text.byteLength_append, Text.byteLength_append]
    omega
  | unclosed =>
    have quote_pos : 0 < Char.utf8Size '"' := Char.utf8Size_pos '"'
    rw [Text.byteLength_append, Text.byteLength_cons, List.length_singleton]
    omega

/-! ## What divides is cut -/

theorem scanFrom_gap (blank : Text.Blank gap) : scanFrom l offset (gap ++ rest) =
    scanFrom l (offset + Text.byteLength gap) rest := by
  induction gap generalizing offset with
  | nil => rfl
  | cons c gap ih =>
    obtain ⟨first, others⟩ := List.forall_mem_cons.mp blank
    rw [List.cons_append, scanFrom_blank first, ih others, Text.byteLength_cons, Nat.add_assoc]

theorem scanFrom_word_append (word : IsWord text)
    (stop : ∀ c ∈ rest.head?, ¬isWordCharacter c = true) :
    scanFrom l offset (text ++ rest) = (scanFrom l (offset + Text.byteLength text) rest).map
      (⟨.word, offset, String.ofList text⟩ :: ·) := by
  obtain ⟨c, cs, rfl⟩ := List.exists_cons_of_ne_nil word.nonempty
  obtain ⟨first, others⟩ := List.forall_mem_cons.mp word.visible
  obtain ⟨printable, visible, unmarked⟩ := isWordCharacter_iff.mp first
  have unquoted : ¬isQuote c = true := by
    rw [isQuote_iff]
    rintro rfl
    exact word.unquoted rfl
  rw [List.cons_append, scanFrom_word visible unmarked unquoted printable,
    takeWhile_append_of_stop others stop, dropWhile_append_of_stop others stop]

theorem scanFrom_quoted_append (plain : '"' ∉ body) :
    scanFrom l offset ('"' :: (body ++ '"' :: rest)) =
      (scanFrom l (offset + Text.byteLength ('"' :: (body ++ ['"']))) rest).map
        (⟨.quoted, offset, String.ofList ('"' :: (body ++ ['"']))⟩ :: ·) := by
  have stop : ∀ c ∈ ('"' :: rest).head?, ¬(!isQuote c) = true := by simp [isQuote]
  have closed := dropWhile_append_of_stop (unquoted_of_plain plain) stop
  rw [scanFrom_closed quote_visible quote_unmarked rfl closed,
    takeWhile_append_of_stop (unquoted_of_plain plain) stop]
  rfl

theorem scanFrom_unclosed (plain : '"' ∉ body) : scanFrom l offset ('"' :: body) =
    if l.unterminatedText then .ok [⟨.quoted, offset, String.ofList ('"' :: body)⟩]
    else .error (.unterminatedText offset) := by
  have all := unquoted_of_plain plain
  rw [scanFrom_open quote_visible quote_unmarked rfl (List.dropWhile_eq_nil_iff.mpr all),
    List.takeWhile_eq_self_iff.mpr all]

/-- A lexeme is cut off, whatever comes after it, unless it is a word that goes on. -/
theorem Lexeme.scanFrom_append (h : Lexeme kind text after)
    (stop : kind = .word → after = [] → ∀ c ∈ rest.head?, ¬isWordCharacter c = true) :
    scanFrom l offset (text ++ (after ++ rest)) =
      (scanFrom l (offset + Text.byteLength text) (after ++ rest)).map
        (⟨kind, offset, String.ofList text⟩ :: ·) := by
  cases h with
  | @mark c _ mark =>
    have visible : ¬Text.isBlank c = true := by
      intro blank
      simp only [isPunctuation, Bool.or_eq_true, beq_iff_eq] at mark
      obtain ((rfl | rfl) | rfl) | rfl := mark <;> cases blank
    rw [List.singleton_append, scanFrom_mark visible mark]
    rfl
  | quoted plain =>
    rw [List.cons_append, List.append_assoc]
    exact scanFrom_quoted_append plain
  | word word ends =>
    refine scanFrom_word_append word ?_
    cases after with
    | nil => exact stop rfl rfl
    | cons c cs =>
      intro c' hc
      exact (ends c' hc).elim not_isWordCharacter_of_isBlank not_isWordCharacter_of_isPunctuation

/-- **A text that divides is cut so**, also in front of more text, unless a word goes on there. A
text whose closing quote is missing has no text after it. -/
theorem Divides.scanFrom_append (h : Divides l offset cs tokens) (l' : Leniency)
    (rest : List Char) (closed : l.unterminatedText = true → l'.unterminatedText = true ∧ rest = [])
    (apart : ∀ c ∈ rest.head?, isWordCharacter c = true →
      ¬WordEndsAt tokens (offset + Text.byteLength cs)) :
    scanFrom l' offset (cs ++ rest) =
      (scanFrom l' (offset + Text.byteLength cs) rest).map (tokens ++ ·) := by
  induction h with
  | gap blank =>
    rw [scanFrom_gap blank]
    cases scanFrom l' _ rest <;> rfl
  | @token offset gap kind text after tokens blank lexeme divided ih =>
    have whole : offset + Text.byteLength (gap ++ (text ++ after)) =
        offset + Text.byteLength gap + Text.byteLength text + Text.byteLength after := by
      simp only [Text.byteLength_append, Nat.add_assoc]
    rw [whole] at apart ⊢
    -- only the last token can be a word that reaches up to `rest`: this one if nothing is behind it
    have here : kind = .word → after = [] → ∀ c ∈ rest.head?, ¬isWordCharacter c = true := by
      rintro rfl rfl c hc wordy
      refine apart c hc wordy (wordEndsAt_cons_iff.mpr (Or.inl ⟨rfl, ?_⟩))
      rw [← Text.byteLength_toList, String.toList_ofList, Text.byteLength_nil, Nat.add_zero]
    have later := fun c hc wordy ends => apart c hc wordy (wordEndsAt_cons_iff.mpr (Or.inr ends))
    rw [List.append_assoc, List.append_assoc, scanFrom_gap blank, lexeme.scanFrom_append here,
      ih later]
    cases scanFrom l' _ rest <;> rfl
  | unclosed tolerated blank plain =>
    obtain ⟨tolerated', rfl⟩ := closed tolerated
    rw [List.append_nil, scanFrom_gap blank, scanFrom_unclosed plain, if_pos tolerated', scanFrom]
    rfl

theorem Divides.scanFrom_eq (h : Divides l offset cs tokens) :
    scanFrom l offset cs = .ok tokens := by
  have cut := h.scanFrom_append l [] (fun tolerated => ⟨tolerated, rfl⟩) nofun
  rw [List.append_nil, scanFrom] at cut
  exact cut.trans (congrArg Except.ok (List.append_nil tokens))

end Token

end ProtocolGraph
