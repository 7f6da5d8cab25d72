import ProtocolGraph.Proofs.Node.Derivation
import ProtocolGraph.Proofs.Token.Cutting

/-!
# Nodes as source text

`Node.render` writes a node as source text, with one space between the elements of a list. Not every
node can be written: a symbol with a space in its name would be read as two.

* `Node.WellSpelt`: every leaf is what a token is. So it is in all nodes that are derived from the
  tokens of a text (`Derives.wellSpelt`).
* **`WellSpelt.writes`**: the source text of a well spelt node divides into tokens that the node
  derives, in front of anything that does not make its last word longer.
-/

namespace ProtocolGraph

namespace Node

mutual

/-- The source text of the node. -/
def render : Node → List Char
  | .list elements => '(' :: (renderAll elements ++ [')'])
  | .string text => text.toList
  | .int value => Text.decimal value.toInt
  | .keyword name => name.toList
  | .symbol name => name.toList

/-- The source texts of the nodes, with a space between each two. -/
def renderAll : List Node → List Char
  | [] => []
  | [n] => n.render
  | n :: rest => n.render ++ ' ' :: renderAll rest

end

theorem renderAll_cons (n : Node) (ns : List Node) :
    renderAll (n :: ns) = n.render ++ ns.flatMap fun m => ' ' :: m.render := by
  induction ns generalizing n with
  | nil => rw [renderAll, List.flatMap_nil, List.append_nil]
  | cons m ns ih =>
    rw [renderAll, ih, List.flatMap_cons, List.cons_append]
    exact nofun

end Node

/-! ## Numbers -/

theorem Text.numeral_decimal (n : Int) : Text.Numeral (Text.decimal n) n :=
  Text.signed?_eq_some_iff.mp (Text.signed?_decimal n)

variable [Text.Alphabet]

theorem Token.isWordCharacter_of_isDigit {c : Char} (h : c.isDigit = true) :
    Token.isWordCharacter c = true := by
  have bounds : 48 ≤ c.toNat ∧ c.toNat ≤ 57 := by
    simpa [Char.isDigit, UInt32.le_iff_toNat_le] using h
  refine Token.isWordCharacter_of_ascii (by omega) (by omega) fun mark => ?_
  simp only [Token.isPunctuation, Bool.or_eq_true, beq_iff_eq] at mark
  obtain ((rfl | rfl) | rfl) | rfl := mark <;> cases h

theorem Token.isWord_decimal (n : Int) : Token.IsWord (Text.decimal n) := by
  have digits : ∀ m, ∀ c ∈ Nat.toDigits 10 m, c.isDigit = true := fun m c hc =>
    Nat.isDigit_of_mem_toDigits (by decide) (by decide) hc
  have visible : ∀ m, ∀ c ∈ Nat.toDigits 10 m, Token.isWordCharacter c = true := fun m c hc =>
    Token.isWordCharacter_of_isDigit (digits m c hc)
  cases n with
  | ofNat m =>
    refine ⟨Nat.toDigits_ne_nil, visible m, fun quoted => ?_⟩
    exact absurd (digits m '"' (List.mem_of_mem_head? quoted)) (by decide)
  | negSucc m =>
    have minus : Token.isWordCharacter '-' = true :=
      Token.isWordCharacter_of_ascii (by decide) (by decide) (by decide)
    exact ⟨List.cons_ne_nil _ _, List.forall_mem_cons.mpr ⟨minus, visible (m + 1)⟩,
      nofun⟩

/-! ## Spelling -/

/-- The text is a word that denotes a symbol. -/
structure Text.IsSymbol (name : String) : Prop where
  word : Token.IsWord name.toList
  plain : name.toList.head? ≠ some ':'
  other : ∀ n : Int64, ¬Numeral name.toList n.toInt

theorem Text.isSymbol_iff {name : String} : IsSymbol name ↔
    Token.IsWord name.toList ∧ name.toList.head? ≠ some ':' ∧ int64? name.toList = none :=
  ⟨fun ⟨word, plain, other⟩ => ⟨word, plain, int64?_eq_none_iff.mpr other⟩,
    fun ⟨word, plain, other⟩ => ⟨word, plain, int64?_eq_none_iff.mp other⟩⟩

instance : DecidablePred Text.IsSymbol :=
  fun _ => decidable_of_iff _ Text.isSymbol_iff.symm

/-- A word of visible ASCII denotes a symbol in every alphabet. -/
theorem Text.isSymbol_of_ascii {name : String} (nonempty : name.toList ≠ [])
    (visible : name.toList.all fun c => 0x20 < c.toNat ∧ c.toNat ≤ 0x7E ∧ ¬Token.isPunctuation c)
    (unquoted : name.toList.head? ≠ some '"') (plain : name.toList.head? ≠ some ':')
    (other : int64? name.toList = none) : IsSymbol name := by
  have isWord : Token.IsWord name.toList := by
    refine ⟨nonempty, fun c hc => ?_, unquoted⟩
    obtain ⟨low, high, mark⟩ := of_decide_eq_true (List.all_eq_true.mp visible c hc)
    exact Token.isWordCharacter_of_ascii low high mark
  exact Text.isSymbol_iff.mpr ⟨isWord, plain, other⟩

namespace Node

/-- Every leaf of the node is spelt as a token. -/
inductive WellSpelt (leniency : Leniency) : Node → Prop
  | list {elements} (inner : ∀ n ∈ elements, WellSpelt leniency n) :
      WellSpelt leniency (.list elements)
  | string {t : Token} (quoted : t.kind = .quoted) (spelt : t.Spelt leniency) :
      WellSpelt leniency (.string t.text)
  | int (value) : WellSpelt leniency (.int value)
  | keyword {name} (word : Token.IsWord name.toList)
      (other : ∀ n : Int64, ¬Text.Numeral name.toList n.toInt)
      (colon : name.toList.head? = some ':') : WellSpelt leniency (.keyword name)
  | symbol {name} (spelt : Text.IsSymbol name) : WellSpelt leniency (.symbol name)

variable {l : Leniency} {t : Token} {n : Node} {ts : List Token} {cs : List Char}

/-! ## What is derived is well spelt -/

theorem isWord_of_spelt (spelt : t.Spelt l) (word : t.kind = .word) :
    Token.IsWord t.text.toList := by
  rcases spelt with lexeme | ⟨-, quoted, -⟩
  · rw [word] at lexeme
    exact (Token.lexeme_word_iff.mp lexeme).1
  · cases word.symm.trans quoted

theorem Leaf.wellSpelt (h : Leaf t n) (spelt : t.Spelt l) : n.WellSpelt l := by
  cases h with
  | string quoted => exact .string quoted spelt
  | int word numeral => exact .int _
  | keyword word other colon => exact .keyword (isWord_of_spelt spelt word) other colon
  | symbol word other plain => exact .symbol ⟨isWord_of_spelt spelt word, plain, other⟩

mutual

theorem Derives.wellSpelt {n : Node} {ts : List Token} :
    Derives n ts → (∀ t ∈ ts, t.Spelt l) → n.WellSpelt l
  | .leaf h, spelt => h.wellSpelt (spelt _ List.mem_cons_self)
  | .list _ derived _, spelt => .list (derived.wellSpelt fun t ht =>
      spelt t (List.mem_cons_of_mem _ (List.mem_append_left _ ht)))

theorem DerivesAll.wellSpelt {ns : List Node} {ts : List Token} :
    DerivesAll ns ts → (∀ t ∈ ts, t.Spelt l) → ∀ n ∈ ns, n.WellSpelt l
  | .nil, _ => nofun
  | .cons head tail, spelt => List.forall_mem_cons.mpr
      ⟨head.wellSpelt fun t ht => spelt t (List.mem_append_left _ ht),
        tail.wellSpelt fun t ht => spelt t (List.mem_append_right _ ht)⟩

end

/-! ## What is well spelt is read -/

/-- In front of anything that does not make its last word longer, the text divides into tokens that
the nodes derive. -/
def Writes (ns : List Node) (cs : List Char) : Prop :=
  ∀ leniency offset after us, Token.EndsWord after →
    Token.Divides leniency (offset + Text.byteLength cs) after us →
    ∃ ts, DerivesAll ns ts ∧ Token.Divides leniency offset (cs ++ after) (ts ++ us)

/-- A leaf is written as its token. -/
theorem writes_leaf {kind : Token.Kind} {text : String} (lexeme : Token.Lexeme kind text.toList [])
    (leaf : ∀ offset, Leaf ⟨kind, offset, text⟩ n) : Writes [n] text.toList := by
  intro l offset after us ends rest
  refine ⟨[⟨kind, offset, text⟩], derivesAll_singleton (.leaf (leaf offset)), ?_⟩
  have token := Token.Divides.cons lexeme (fun _ => ends) rest
  rwa [String.ofList_toList] at token

theorem writes_list {elements : List Node} (h : Writes elements cs) :
    Writes [.list elements] ('(' :: (cs ++ [')'])) := by
  intro l offset after us ends rest
  rw [Text.byteLength_cons, Text.byteLength_append, ← Nat.add_assoc, ← Nat.add_assoc] at rest
  have closing := Token.Divides.cons (.mark rfl) nofun rest
  obtain ⟨ts, derived, inner⟩ := h l _ _ _ (Token.endsWord_cons_iff.mpr (Or.inr rfl)) closing
  have opening := Token.Divides.cons (@Token.Lexeme.mark _ '(' _ rfl) nofun inner
  have listed := @Derives.list elements ts ⟨.punctuation, offset, "("⟩
    ⟨.punctuation, offset + '('.utf8Size + Text.byteLength cs, ")"⟩ rfl derived rfl
  refine ⟨_, derivesAll_singleton listed, ?_⟩
  rw [List.cons_append, List.cons_append, List.append_assoc, List.append_assoc]
  exact opening

theorem writes_cons {ns : List Node} {cs' : List Char} (head : Writes [n] cs)
    (tail : Writes ns cs') : Writes (n :: ns) (cs ++ ' ' :: cs') := by
  intro l offset after us ends rest
  rw [Text.byteLength_append, Text.byteLength_cons, ← Nat.add_assoc, ← Nat.add_assoc] at rest
  obtain ⟨vs, others, behind⟩ := tail l _ after us ends rest
  have spaced := behind.blank_cons Text.isBlank_space
  have parted : Token.EndsWord (' ' :: (cs' ++ after)) :=
    Token.endsWord_cons_iff.mpr (Or.inl Text.isBlank_space)
  obtain ⟨ts, derived, whole⟩ := head l offset _ _ parted spaced
  rw [← List.append_assoc] at whole
  rw [List.append_assoc, List.cons_append]
  exact ⟨ts ++ vs, derived.append others, whole⟩

theorem writes_renderAll : ∀ {ns : List Node}, (∀ n ∈ ns, Writes [n] n.render) →
    Writes ns (renderAll ns)
  | [], _ => fun l offset after us ends rest => ⟨[], .nil, rest⟩
  | [n], h => h n List.mem_cons_self
  | n :: m :: ns, h => by
    obtain ⟨head, tail⟩ := List.forall_mem_cons.mp h
    exact writes_cons head (writes_renderAll tail)

/-- **The source text of a well spelt node** divides into tokens that the node derives. -/
theorem WellSpelt.writes (h : n.WellSpelt .strict) : Writes [n] n.render := by
  induction h with
  | list inner ih => exact writes_list (writes_renderAll ih)
  | @string t quoted spelt =>
    rcases spelt with lexeme | ⟨tolerated, -⟩
    · exact writes_leaf (quoted ▸ lexeme) fun offset => .string rfl
    · cases tolerated
  | int value =>
    rw [render, ← String.toList_ofList (l := Text.decimal value.toInt)]
    refine writes_leaf (.word ?_ Token.endsWord_nil) fun offset => .int rfl ?_
    · rw [String.toList_ofList]
      exact Token.isWord_decimal value.toInt
    · rw [String.toList_ofList]
      exact Text.numeral_decimal value.toInt
  | keyword word other colon =>
    exact writes_leaf (.word word Token.endsWord_nil) fun offset => .keyword rfl other colon
  | symbol spelt =>
    exact writes_leaf (.word spelt.word Token.endsWord_nil) fun offset =>
      .symbol rfl spelt.other spelt.plain

end Node

end ProtocolGraph
