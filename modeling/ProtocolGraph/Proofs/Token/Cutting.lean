import ProtocolGraph.Proofs.Token.Division

/-!
# What a text is cut into

The cutting of a text is known from how the text divides. `Token.Cut` says so of every outcome: the
text divides into the tokens, or a first part of it divides and `Token.Stuck` says what stands
behind this part.

* `Cut.blank_cons`, `Cut.token`: a blank or a token in front keeps this.
* `scanFrom_eq_iff`: the outcome is the one that is so.
* **`scan_exact`** is the result for source text: which texts have tokens, which tokens these are,
  and where all other texts fail.
-/

namespace ProtocolGraph.Token

section

variable [Text.Alphabet]

/-- Behind these tokens, `offset` bytes into the source, the characters start with something that
is no token: a character of no use, or a quote that is never closed and starts a token. -/
inductive Stuck (leniency : Leniency) (offset : Nat) (tokens : List Token) :
    List Char → Fault → Prop
  | unknown {c after} (visible : ¬Text.isBlank c = true) (unmarked : ¬isPunctuation c = true)
      (unprintable : ¬Text.Alphabet.printable c = true) :
      Stuck leniency offset tokens (c :: after) (.unknownCharacter c offset)
  | unterminated {after} (strict : leniency.unterminatedText = false) (plain : '"' ∉ after)
      (outside : ¬WordEndsAt tokens offset) :
      Stuck leniency offset tokens ('"' :: after) (.unterminatedText offset)

/-- What the outcome says of the characters: they divide into the tokens, or a first part divides
and the reading is stuck behind it. -/
def Cut (leniency : Leniency) (offset : Nat) (cs : List Char) :
    Except Fault (List Token) → Prop
  | .ok tokens => Divides leniency offset cs tokens
  | .error fault => ∃ before rest tokens, cs = before ++ rest ∧
      Divides .strict offset before tokens ∧
      Stuck leniency (offset + Text.byteLength before) tokens rest fault

variable {l : Leniency} {offset : Nat} {c : Char} {cs gap text body after rest : List Char}
  {kind : Kind} {t : Token} {tokens : List Token} {fault : Fault}

/-! ## In front of a text that divides -/

theorem Divides.blank_cons (blank : Text.isBlank c = true)
    (h : Divides l (offset + c.utf8Size) cs tokens) : Divides l offset (c :: cs) tokens := by
  have gap_cons {gap : List Char} (others : Text.Blank gap) : Text.Blank (c :: gap) :=
    List.forall_mem_cons.mpr ⟨blank, others⟩
  cases h with
  | gap others => exact .gap (gap_cons others)
  | token others lexeme rest =>
    rw [Nat.add_assoc offset, ← Text.byteLength_cons] at rest ⊢
    exact .token (gap_cons others) lexeme rest
  | unclosed tolerated others plain =>
    rw [Nat.add_assoc offset, ← Text.byteLength_cons]
    exact .unclosed tolerated (gap_cons others) plain

/-- A word ends in front of what divides, unless it goes on there. -/
theorem Divides.endsWord (h : Divides l offset cs tokens)
    (stop : ∀ c ∈ cs.head?, ¬isWordCharacter c = true) : EndsWord cs := by
  have in_gap {gap text : List Char} (blank : Text.Blank gap)
      (here : ∀ c ∈ text.head?, isWordCharacter c = true ∨ isPunctuation c = true)
      (stop : ∀ c ∈ (gap ++ text).head?, ¬isWordCharacter c = true) : EndsWord (gap ++ text) := by
    intro c hc
    cases gap with
    | nil => exact Or.inr ((here c hc).resolve_left (stop c hc))
    | cons first gap =>
      obtain rfl : first = c := Option.some.inj hc
      exact Or.inl (blank first List.mem_cons_self)
  cases h with
  | gap blank =>
    rw [← List.append_nil cs] at stop ⊢
    exact in_gap blank (by simp) stop
  | token blank lexeme rest =>
    refine in_gap blank (fun c hc => ?_) stop
    cases lexeme with
    | mark mark =>
      obtain rfl := Option.some.inj hc
      exact Or.inr mark
    | quoted plain =>
      obtain rfl := Option.some.inj hc
      exact Or.inl isWordCharacter_quote
    | word word ends =>
      rw [List.head?_append_of_ne_nil _ word.nonempty] at hc
      exact Or.inl (word.visible c (List.mem_of_mem_head? hc))
  | unclosed tolerated blank plain =>
    refine in_gap blank (fun c hc => ?_) stop
    obtain rfl := Option.some.inj hc
    exact Or.inl isWordCharacter_quote

/-! ## Where no token starts -/

theorem Stuck.scanFrom_eq (h : Stuck l offset tokens cs fault) :
    scanFrom l offset cs = .error fault := by
  cases h with
  | @unknown c after visible unmarked unprintable =>
    have unquoted : ¬isQuote c = true := by
      rw [isQuote_iff]
      rintro rfl
      exact unprintable (isWordCharacter_iff.mp isWordCharacter_quote).1
    exact scanFrom_unknown visible unmarked unquoted unprintable
  | unterminated strict plain => rw [scanFrom_unclosed plain, strict, if_neg Bool.false_ne_true]

theorem Stuck.apart (h : Stuck l offset tokens cs fault) (hc : c ∈ cs.head?)
    (wordy : isWordCharacter c = true) : ¬WordEndsAt tokens offset := by
  cases h with
  | unknown visible unmarked unprintable =>
    obtain rfl := Option.some.inj hc
    exact (unprintable (isWordCharacter_iff.mp wordy).1).elim
  | unterminated strict plain outside => exact outside

theorem Stuck.cons (h : Stuck l offset tokens cs fault)
    (apart : t.kind = .word → t.offset + t.text.utf8ByteSize = offset → cs.head? ≠ some '"') :
    Stuck l offset (t :: tokens) cs fault := by
  cases h with
  | unknown visible unmarked unprintable => exact .unknown visible unmarked unprintable
  | unterminated strict plain outside =>
    refine .unterminated strict plain fun ends => ?_
    rcases wordEndsAt_cons_iff.mp ends with ⟨word, here⟩ | ends
    · exact apart word here rfl
    · exact outside ends

/-! ## Outcomes -/

variable {outcome : Except Fault (List Token)}

theorem Cut.blank_cons (blank : Text.isBlank c = true)
    (h : Cut l (offset + c.utf8Size) cs outcome) : Cut l offset (c :: cs) outcome := by
  cases outcome with
  | ok tokens => exact Divides.blank_cons blank h
  | error fault =>
    obtain ⟨before, rest, tokens, rfl, divided, stuck⟩ := h
    rw [Nat.add_assoc, ← Text.byteLength_cons] at stuck
    exact ⟨c :: before, rest, tokens, rfl, divided.blank_cons blank, stuck⟩

/-- A token in front, which is as long as it can be. -/
theorem Cut.token (lexeme : Lexeme kind text [])
    (stop : kind = .word → ∀ c ∈ after.head?, ¬isWordCharacter c = true)
    (h : Cut l (offset + Text.byteLength text) after outcome) :
    Cut l offset (text ++ after) (outcome.map (⟨kind, offset, String.ofList text⟩ :: ·)) := by
  cases outcome with
  | ok tokens => exact .cons lexeme (fun word => Divides.endsWord h (stop word)) h
  | error fault =>
    obtain ⟨before, rest, tokens, rfl, divided, stuck⟩ := h
    have ends : kind = .word → EndsWord before := fun word =>
      divided.endsWord fun c hc => stop word c (by rw [List.head?_append, hc]; rfl)
    refine ⟨text ++ before, rest, _, (List.append_assoc ..).symm, .cons lexeme ends divided, ?_⟩
    rw [Text.byteLength_append, ← Nat.add_assoc]
    refine stuck.cons fun word here quoted => ?_
    -- a word that ends there leaves no room for `before`, and a quote would have been part of it
    have here : offset + (String.ofList text).utf8ByteSize = _ := here
    rw [← Text.byteLength_toList, String.toList_ofList] at here
    have empty : before = [] := by
      by_contra nonempty
      have := Text.byteLength_pos nonempty
      omega
    subst empty
    exact stop word '"' quoted isWordCharacter_quote

theorem cut_scanFrom (l : Leniency) (offset : Nat) (cs : List Char) :
    Cut l offset cs (scanFrom l offset cs) := by
  induction offset, cs using scanFrom.induct l with
  | case1 offset =>
    rw [scanFrom]
    exact .gap blank_nil
  | case2 offset c rest blank ih =>
    rw [scanFrom_blank blank]
    exact ih.blank_cons blank
  | case3 offset c rest visible mark ih =>
    rw [scanFrom_mark visible mark]
    exact ih.token (.mark mark) fun word => by cases word
  | case4 offset c rest visible unmarked quote unclosed tolerated =>
    obtain rfl := isQuote_iff.mp quote
    have plain := plain_of_unquoted (List.dropWhile_eq_nil_iff.mp unclosed)
    rw [scanFrom_unclosed plain, if_pos tolerated]
    exact .unclosed tolerated blank_nil plain
  | case5 offset c rest visible unmarked quote unclosed strict =>
    obtain rfl := isQuote_iff.mp quote
    have plain := plain_of_unquoted (List.dropWhile_eq_nil_iff.mp unclosed)
    rw [scanFrom_unclosed plain, if_neg strict]
    have outside : ¬WordEndsAt [] offset := by simp [WordEndsAt]
    exact ⟨[], '"' :: rest, [], rfl, .gap blank_nil,
      .unterminated (Bool.eq_false_iff.mpr strict) plain outside⟩
  | case6 offset c rest visible unmarked quote body close after closed text ih =>
    obtain rfl := isQuote_iff.mp quote
    -- the first character that is dropped is a quote, as the others are
    have last : isQuote close = true := by
      have first := List.head?_dropWhile_not (!isQuote ·) rest
      simpa [closed] using first
    obtain rfl := isQuote_iff.mp last
    have plain : '"' ∉ body := plain_of_unquoted fun c => List.mem_takeWhile_imp
    have whole : '"' :: rest = text ++ after := by
      rw [List.append_assoc, List.singleton_append, ← closed, List.cons_append,
        List.takeWhile_append_dropWhile]
    rw [scanFrom_closed visible unmarked quote closed, whole]
    exact ih.token (.quoted plain) fun word => by cases word
  | case7 offset c rest visible unmarked unquoted printable text ih =>
    rw [scanFrom_word visible unmarked unquoted printable]
    have whole : c :: rest = text ++ rest.dropWhile isWordCharacter := by
      rw [List.cons_append, List.takeWhile_append_dropWhile]
    have word : IsWord text := by
      refine ⟨List.cons_ne_nil _ _, List.forall_mem_cons.mpr
        ⟨isWordCharacter_iff.mpr ⟨printable, visible, unmarked⟩, fun c hc =>
          List.mem_takeWhile_imp hc⟩, fun quoted => ?_⟩
      exact unquoted (isQuote_iff.mpr (Option.some.inj quoted))
    have stop : ∀ c ∈ (rest.dropWhile isWordCharacter).head?, ¬isWordCharacter c = true := by
      intro c hc
      have first := List.head?_dropWhile_not isWordCharacter rest
      rw [Option.mem_def.mp hc] at first
      simpa using first
    rw [whole]
    exact ih.token (.word word endsWord_nil) fun _ => stop
  | case8 offset c rest visible unmarked unquoted unprintable =>
    rw [scanFrom_unknown visible unmarked unquoted unprintable]
    exact ⟨[], c :: rest, [], rfl, .gap blank_nil, .unknown visible unmarked unprintable⟩

theorem Cut.scanFrom_eq (h : Cut l offset cs outcome) : scanFrom l offset cs = outcome := by
  cases outcome with
  | ok tokens => exact Divides.scanFrom_eq h
  | error fault =>
    obtain ⟨before, rest, tokens, rfl, divided, stuck⟩ := h
    have strict : Leniency.strict.unterminatedText ≠ true := Bool.false_ne_true
    rw [divided.scanFrom_append l rest (fun tolerated => (strict tolerated).elim)
      fun c hc wordy => stuck.apart hc wordy, stuck.scanFrom_eq]
    rfl

/-- **The outcome of the cutting** is the one that says how the characters divide. -/
theorem scanFrom_eq_iff : scanFrom l offset cs = outcome ↔ Cut l offset cs outcome :=
  ⟨fun h => h ▸ cut_scanFrom l offset cs, Cut.scanFrom_eq⟩

/-! ## Source text -/

/-- A token has the characters that stand behind its offset. -/
theorem Divides.text_at (h : Divides l offset cs tokens) (ht : t ∈ tokens) :
    ∃ before after, cs = before ++ (t.text.toList ++ after) ∧
      t.offset = offset + Text.byteLength before := by
  induction h with
  | gap blank => cases ht
  | @token offset gap kind text after tokens blank lexeme rest ih =>
    rcases List.mem_cons.mp ht with rfl | ht
    · exact ⟨gap, after, by rw [String.toList_ofList], rfl⟩
    · obtain ⟨before, after, rfl, start⟩ := ih ht
      refine ⟨gap ++ (text ++ before), after, by simp only [List.append_assoc], ?_⟩
      rw [start, Text.byteLength_append, Text.byteLength_append, Nat.add_assoc, Nat.add_assoc]
  | @unclosed offset gap body tolerated blank plain =>
    obtain rfl := List.mem_singleton.mp ht
    exact ⟨gap, [], by rw [String.toList_ofList, List.append_nil], rfl⟩

theorem scan_eq_ok_iff {source : String} :
    scan l source = .ok tokens ↔ Divides l 0 source.toList tokens :=
  scanFrom_eq_iff

theorem scan_eq_nil_iff {source : String} :
    scan l source = .ok [] ↔ Text.Blank source.toList := by
  rw [scan_eq_ok_iff]
  generalize source.toList = cs
  constructor
  · rintro ⟨blank⟩
    exact blank
  · exact .gap

theorem scan_eq_error_iff {source : String} : scan l source = .error fault ↔
    ∃ before rest tokens, source = before ++ rest ∧ scan .strict before = .ok tokens ∧
      Stuck l before.utf8ByteSize tokens rest.toList fault := by
  refine scanFrom_eq_iff.trans ⟨?_, ?_⟩
  · rintro ⟨before, rest, tokens, whole, divided, stuck⟩
    refine ⟨String.ofList before, String.ofList rest, tokens, ?_, scan_eq_ok_iff.mpr ?_, ?_⟩
    · rw [← String.ofList_append, ← whole, String.ofList_toList]
    · rwa [String.toList_ofList]
    · rwa [← Text.byteLength_toList, String.toList_ofList, String.toList_ofList, ← Nat.zero_add
        (Text.byteLength before)]
  · rintro ⟨before, rest, tokens, rfl, read, stuck⟩
    refine ⟨before.toList, rest.toList, tokens, String.toList_append, scan_eq_ok_iff.mp read, ?_⟩
    rwa [Nat.zero_add, Text.byteLength_toList]

theorem scan_eq_unknown_iff {source : String} {offset : Nat} :
    scan l source = .error (.unknownCharacter c offset) ↔
      (¬Text.isBlank c = true ∧ ¬isPunctuation c = true ∧ ¬Text.Alphabet.printable c = true) ∧
      ∃ before after, source = before ++ String.singleton c ++ after ∧
        before.utf8ByteSize = offset ∧ ∃ tokens, scan .strict before = .ok tokens := by
  rw [scan_eq_error_iff]
  constructor
  · rintro ⟨before, rest, tokens, rfl, read, stuck⟩
    generalize characters : rest.toList = cs at stuck
    cases stuck with
    | unknown visible unmarked unprintable =>
      rw [Text.toList_eq_cons_iff.mp characters, ← String.append_assoc]
      exact ⟨⟨visible, unmarked, unprintable⟩, before, _, rfl, rfl, tokens, read⟩
  · rintro ⟨⟨visible, unmarked, unprintable⟩, before, after, rfl, rfl, tokens, read⟩
    refine ⟨before, String.singleton c ++ after, tokens, String.append_assoc, read, ?_⟩
    rw [String.toList_append, String.toList_singleton]
    exact .unknown visible unmarked unprintable

theorem scan_eq_unterminated_iff {source : String} {offset : Nat} :
    scan l source = .error (.unterminatedText offset) ↔ l.unterminatedText = false ∧
      ∃ before after, source = before ++ "\"" ++ after ∧ '"' ∉ after.toList ∧
        before.utf8ByteSize = offset ∧
        ∃ tokens, scan .strict before = .ok tokens ∧ ¬WordEndsAt tokens offset := by
  rw [scan_eq_error_iff]
  constructor
  · rintro ⟨before, rest, tokens, rfl, read, stuck⟩
    generalize characters : rest.toList = cs at stuck
    cases stuck with
    | unterminated strict plain outside =>
      rw [Text.toList_eq_cons_iff.mp characters, ← String.append_assoc]
      refine ⟨strict, before, _, rfl, ?_, rfl, tokens, read, outside⟩
      rwa [String.toList_ofList]
  · rintro ⟨strict, before, after, rfl, plain, rfl, tokens, read, outside⟩
    refine ⟨before, "\"" ++ after, tokens, String.append_assoc, read, ?_⟩
    rw [String.toList_append]
    exact .unterminated strict plain outside

theorem Divides.unique {tokens' : List Token} (h : Divides l offset cs tokens)
    (h' : Divides l offset cs tokens') : tokens = tokens' :=
  Except.ok.inj (h.scanFrom_eq.symm.trans h'.scanFrom_eq)

/-- **Cutting a text into tokens, exactly.** A text has tokens if it divides into them and gaps of
blanks, each token as long as it can be; it divides in one way only, and each token has the
characters, and stands behind the bytes, that it says. The cutting fails at a character of no use,
or at a quote that starts a token and is never closed, if everything before it can be cut strictly;
a text whose closing quote is missing may be tolerated, and then it is the last token. -/
theorem scan_exact (leniency : Leniency) (source : String) :
    (∀ tokens, scan leniency source = .ok tokens ↔ Divides leniency 0 source.toList tokens) ∧
    (∀ tokens tokens', Divides leniency 0 source.toList tokens →
      Divides leniency 0 source.toList tokens' → tokens = tokens') ∧
    (∀ tokens, Divides leniency 0 source.toList tokens → ∀ t ∈ tokens, ∃ before after,
      source = before ++ t.text ++ after ∧ before.utf8ByteSize = t.offset) ∧
    (∀ c offset, scan leniency source = .error (.unknownCharacter c offset) ↔
      (¬Text.isBlank c = true ∧ ¬isPunctuation c = true ∧ ¬Text.Alphabet.printable c = true) ∧
      ∃ before after, source = before ++ String.singleton c ++ after ∧
        before.utf8ByteSize = offset ∧ ∃ tokens, scan .strict before = .ok tokens) ∧
    (∀ offset, scan leniency source = .error (.unterminatedText offset) ↔
      leniency.unterminatedText = false ∧
      ∃ before after, source = before ++ "\"" ++ after ∧ '"' ∉ after.toList ∧
        before.utf8ByteSize = offset ∧
        ∃ tokens, scan .strict before = .ok tokens ∧ ¬WordEndsAt tokens offset) := by
  refine ⟨fun tokens => scan_eq_ok_iff, fun tokens tokens' h h' => h.unique h',
    fun tokens h t ht => ?_, fun c offset => scan_eq_unknown_iff,
    fun offset => scan_eq_unterminated_iff⟩
  obtain ⟨before, after, whole, start⟩ := h.text_at ht
  refine ⟨String.ofList before, String.ofList after, ?_, ?_⟩
  · rw [← String.toList_inj]
    simpa using whole
  · rw [start, ← Text.byteLength_toList, String.toList_ofList, Nat.zero_add]

end

/-- A quote in a word is a character of the word, a quote behind a mark starts a token, and what is
never closed is a token at most at the end. -/
theorem scan_exact_quotes :
    Divides { unterminatedText := true } 0 "é\"b(\"q".toList
      [⟨.word, 0, "é\"b"⟩, ⟨.punctuation, 4, "("⟩, ⟨.quoted, 5, "\"q"⟩] ∧
    (∀ tokens, Divides { unterminatedText := true } 0 "é\"b(\"q".toList tokens →
      [⟨.word, 0, "é\"b"⟩, ⟨.punctuation, 4, "("⟩, ⟨.quoted, 5, "\"q"⟩] = tokens) ∧
    (∃ before after, "é\"b(\"q" = before ++ "\"q" ++ after ∧ before.utf8ByteSize = 5) ∧
    (∃ before after, "é\"b(\"q" = before ++ "\"" ++ after ∧ '"' ∉ after.toList ∧
      before.utf8ByteSize = 5 ∧
      ∃ tokens, scan .strict before = .ok tokens ∧ ¬WordEndsAt tokens 5) := by
  obtain ⟨answers, unique, places, -, -⟩ :=
    scan_exact { unterminatedText := true } "é\"b(\"q"
  have divided := (answers [⟨.word, 0, "é\"b"⟩, ⟨.punctuation, 4, "("⟩, ⟨.quoted, 5, "\"q"⟩]).mp
    (by decide +kernel)
  have place := places _ divided ⟨.quoted, 5, "\"q"⟩ (by simp)
  have failed := (scan_exact .strict "é\"b(\"q").2.2.2.2 5
  exact ⟨divided, fun tokens h => unique _ tokens divided h, place,
    (failed.mp (by decide +kernel)).2⟩

end ProtocolGraph.Token
