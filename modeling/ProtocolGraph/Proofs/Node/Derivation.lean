import ProtocolGraph.Node.Reader
import ProtocolGraph.Proofs.Outcome
import ProtocolGraph.Proofs.Text.Numeral

/-!
# The grammar of nodes

`Node.Derives` says which tokens a node derives: a leaf derives one token, and a list derives an
opening mark, what its elements derive one after the other, and a closing mark.

* `Derives.readRest_append`: what a node derives is read as this node, whatever comes after it and
  whatever lists are open.
* `Pending`: the tokens read so far are an opening mark for each open list, with what its elements
  derive behind it. Each token keeps this (`Pending.step`) until the node is complete.
* **`readAll_eq_ok_iff`**: tokens are read as the nodes that derive them, and as no others.
* `DerivesAll.readAll_append`: nodes are read off the front of longer lists of tokens too.
* `DerivesAll.exists_derives_of_mem`: a node among others derives some of the tokens, which stand
  together.
-/

namespace ProtocolGraph.Node

/-- The token is a leaf, namely this one. -/
inductive Leaf : Token → Node → Prop
  | string {t} (quoted : t.kind = .quoted) : Leaf t (.string t.text)
  | int {t} {n : Int64} (word : t.kind = .word) (numeral : Text.Numeral t.text.toList n.toInt) :
      Leaf t (.int n)
  | keyword {t} (word : t.kind = .word)
      (other : ∀ n : Int64, ¬Text.Numeral t.text.toList n.toInt)
      (colon : t.text.toList.head? = some ':') : Leaf t (.keyword t.text)
  | symbol {t} (word : t.kind = .word)
      (other : ∀ n : Int64, ¬Text.Numeral t.text.toList n.toInt)
      (plain : t.text.toList.head? ≠ some ':') : Leaf t (.symbol t.text)

mutual

/-- The node derives the tokens. -/
inductive Derives : Node → List Token → Prop
  | leaf {t n} (h : Leaf t n) : Derives n [t]
  | list {elements inner opening closing} (opens : opening.isMark "(" = true)
      (derived : DerivesAll elements inner) (closes : closing.isMark ")" = true) :
      Derives (.list elements) (opening :: (inner ++ [closing]))

/-- The nodes derive the tokens, one after the other. -/
inductive DerivesAll : List Node → List Token → Prop
  | nil : DerivesAll [] []
  | cons {n ns ts us} (head : Derives n ts) (tail : DerivesAll ns us) :
      DerivesAll (n :: ns) (ts ++ us)

end

variable {t : Token} {n : Node} {ns ms : List Node} {ts us before rest : List Token}
  {o : Opened} {opened outer : List Opened}

/-! ## Leaves -/

theorem ofWord_eq_int {word : String} {n : Int64} (h : Text.Numeral word.toList n.toInt) :
    ofWord word = .int n := by
  rw [ofWord, Text.int64?_eq_some_iff_numeral.mpr h]

theorem ofWord_of_other {word : String} (h : ∀ n : Int64, ¬Text.Numeral word.toList n.toInt) :
    ofWord word = if word.toList.head? = some ':' then .keyword word else .symbol word := by
  rw [ofWord, Text.int64?_eq_none_iff.mpr h]

theorem Leaf.ofToken?_eq (h : Leaf t n) : ofToken? t = some n := by
  cases h with
  | string quoted => rw [ofToken?, quoted]
  | int word numeral => rw [ofToken?, word, ofWord_eq_int numeral]
  | keyword word other colon => rw [ofToken?, word, ofWord_of_other other, if_pos colon]
  | symbol word other plain => rw [ofToken?, word, ofWord_of_other other, if_neg plain]

theorem leaf_ofWord (word : t.kind = .word) : Leaf t (ofWord t.text) := by
  cases numeral : Text.int64? t.text.toList with
  | some n =>
    have numeral := Text.int64?_eq_some_iff_numeral.mp numeral
    exact ofWord_eq_int numeral ▸ .int word numeral
  | none =>
    have other := Text.int64?_eq_none_iff.mp numeral
    rw [ofWord_of_other other]
    split
    · exact .keyword word other ‹_›
    · exact .symbol word other ‹_›

theorem ofToken?_eq_some_iff : ofToken? t = some n ↔ Leaf t n := by
  refine ⟨fun h => ?_, Leaf.ofToken?_eq⟩
  unfold ofToken? at h
  split at h
  · cases h
  · cases h
    exact .string ‹_›
  · cases h
    exact leaf_ofWord ‹_›

theorem Leaf.kind_ne (h : Leaf t n) : t.kind ≠ .punctuation := by
  cases h with
  | string quoted => simp [quoted]
  | int word | keyword word | symbol word => simp [word]

theorem ofToken?_eq_none_iff : ofToken? t = none ↔ t.kind = .punctuation := by
  unfold ofToken?
  cases t.kind <;> simp

/-! ## The effect of a token -/

theorem kind_of_isMark {mark : String} (h : t.isMark mark = true) : t.kind = .punctuation := by
  simp_all [Token.isMark]

theorem isMark_eq_false {mark : String} (h : t.kind ≠ .punctuation) : t.isMark mark = false := by
  simp_all [Token.isMark]

theorem Progress.of_open (h : t.isMark "(" = true) :
    Progress.of opened t rest = .ongoing (⟨t :: rest, []⟩ :: opened) :=
  if_pos h

theorem Progress.of_leaf (h : Leaf t n) : Progress.of opened t rest = .give n opened := by
  simp [Progress.of, isMark_eq_false h.kind_ne, h.ofToken?_eq]

theorem Progress.of_close (h : t.isMark ")" = true) :
    Progress.of (o :: outer) t rest = .give (.list o.elements.reverse) outer := by
  have none : ofToken? t = none := ofToken?_eq_none_iff.mpr (kind_of_isMark h)
  have shut : t.isMark "(" = false := by simp_all [Token.isMark]
  simp [Progress.of, none, shut, h]

/-- What a node makes of the reading: the innermost open list has one more element, and with none
open the node is complete. -/
def handOver (n : Node) (rest : List Token) :
    List Opened → Except (List Token) (Node × List Token)
  | [] => .ok (n, rest)
  | o :: outer => readRest ({ o with elements := n :: o.elements } :: outer) rest

theorem readRest_of_give (h : Progress.of outer t rest = .give n opened) :
    readRest outer (t :: rest) = handOver n rest opened := by
  rw [readRest, h]
  cases opened <;> rfl

/-! ## What is derived is read -/

mutual

/-- **What a node derives is read as this node**, whatever comes after it. -/
theorem Derives.readRest_append {n : Node} {ts : List Token} (opened : List Opened)
    (rest : List Token) :
    Derives n ts → readRest opened (ts ++ rest) = handOver n rest opened
  | .leaf h => readRest_of_give (Progress.of_leaf h)
  | .list opens derived closes => by
    rw [List.cons_append, List.append_assoc, readRest, Progress.of_open opens]
    refine (derived.readRest_append _ opened _).trans ?_
    rw [List.singleton_append, readRest_of_give (Progress.of_close closes), List.append_nil,
      List.reverse_reverse]

/-- What nodes derive is read as elements of the innermost open list. -/
theorem DerivesAll.readRest_append {ns : List Node} {ts : List Token} (o : Opened)
    (outer : List Opened) (rest : List Token) : DerivesAll ns ts →
      readRest (o :: outer) (ts ++ rest) =
        readRest ({ o with elements := ns.reverse ++ o.elements } :: outer) rest
  | .nil => rfl
  | .cons head tail => by
    rw [List.append_assoc, head.readRest_append, handOver, tail.readRest_append,
      List.reverse_cons, List.append_assoc]
    rfl

end

/-! ## What is read is derived -/

theorem DerivesAll.append {ns ms : List Node} {ts us : List Token} :
    DerivesAll ns ts → DerivesAll ms us → DerivesAll (ns ++ ms) (ts ++ us)
  | .nil, other => other
  | .cons head tail, other => by
    rw [List.append_assoc]
    exact .cons head (tail.append other)

theorem derivesAll_singleton (h : Derives n ts) : DerivesAll [n] ts :=
  List.append_nil ts ▸ .cons h .nil

theorem Derives.ne_nil (h : Derives n ts) : ts ≠ [] := by
  cases h <;> exact List.cons_ne_nil _ _

/-- The tokens read so far are an opening mark for each open list, outermost first, and behind it
what the elements of this list derive. -/
inductive Pending : List Opened → List Token → Prop
  | nil : Pending [] []
  | cons {o outer before t inner} (tail : Pending outer before) (opens : t.isMark "(" = true)
      (start : o.start.head? = some t) (derived : DerivesAll o.elements.reverse inner) :
      Pending (o :: outer) (before ++ t :: inner)

/-- After these tokens the reading has come so far. -/
def Progress.After (before : List Token) : Progress → Prop
  | .ongoing opened => Pending opened before
  | .complete n => Derives n before
  | .stuck => True

theorem Pending.give (h : Pending opened before) (derived : Derives n ts) :
    (Progress.give n opened).After (before ++ ts) := by
  cases h with
  | nil => exact derived
  | @cons o outer before t inner tail opens start elements =>
    rw [List.append_assoc]
    refine Pending.cons tail opens start ?_
    rw [List.reverse_cons]
    exact elements.append (derivesAll_singleton derived)

theorem Progress.of_none (none : ofToken? t = none) (shut : ¬t.isMark "(" = true)
    (unclosed : t.isMark ")" = true → opened = []) : Progress.of opened t rest = .stuck := by
  cases opened with
  | nil => simp [Progress.of, none, shut]
  | cons o outer =>
    have unclosed : ¬t.isMark ")" = true := fun closes => nomatch unclosed closes
    simp [Progress.of, none, shut, unclosed]

/-- **One token** keeps the tokens read so far and the open lists in step. -/
theorem Pending.step (h : Pending opened before) (t : Token) (rest : List Token) :
    (Progress.of opened t rest).After (before ++ [t]) := by
  by_cases opens : t.isMark "(" = true
  · rw [Progress.of_open opens]
    exact .cons h opens rfl .nil
  cases leaf : ofToken? t with
  | some n =>
    have leaf := ofToken?_eq_some_iff.mp leaf
    rw [Progress.of_leaf leaf]
    exact h.give (.leaf leaf)
  | none =>
    by_cases closes : t.isMark ")" = true
    · cases h with
      | nil =>
        rw [Progress.of_none leaf opens fun _ => rfl]
        trivial
      | cons tail opening start elements =>
        rw [Progress.of_close closes, List.append_assoc]
        exact tail.give (.list opening elements closes)
    · rw [Progress.of_none leaf opens fun h => (closes h).elim]
      trivial

/-- **What is read is derived**, together with the tokens that were read before. -/
theorem derives_of_readRest (h : readRest opened ts = .ok (n, rest))
    (pending : Pending opened before) : ∃ used, ts = used ++ rest ∧ Derives n (before ++ used) := by
  induction ts generalizing opened before with
  | nil => cases h
  | cons t ts ih =>
    have step := pending.step t ts
    rw [readRest] at h
    split at h
    · rename_i progress
      rw [progress] at step
      obtain ⟨used, rfl, derived⟩ := ih h step
      exact ⟨t :: used, rfl, List.append_cons before t used ▸ derived⟩
    · rename_i progress
      rw [progress] at step
      cases h
      exact ⟨[t], rfl, step⟩
    · cases h

theorem derives_of_readNode (h : readNode ts = .ok (n, rest)) :
    ∃ used, ts = used ++ rest ∧ Derives n used :=
  derives_of_readRest h .nil

/-! ## Lists of nodes -/

theorem readAll_nil : readAll [] = .ok [] := by
  rw [readAll, if_pos rfl]

theorem readAll_of_readNode (h : readNode ts = .ok (n, rest)) :
    readAll ts = (readAll rest).map (n :: ·) := by
  have nonempty : ts ≠ [] := by
    rintro rfl
    cases h
  rw [readAll, if_neg nonempty]
  split
  · rename_i failed
    cases h.symm.trans failed
  · rename_i read
    cases h.symm.trans read
    rfl

theorem readAll_of_error {stuck : List Token} (nonempty : ts ≠ [])
    (h : readNode ts = .error stuck) : readAll ts = .error stuck := by
  rw [readAll, if_neg nonempty]
  split
  · rename_i failed
    cases h.symm.trans failed
    rfl
  · rename_i read
    cases h.symm.trans read

/-- **Nodes are read off the front** of longer lists of tokens. -/
theorem DerivesAll.readAll_append {ns : List Node} {ts : List Token} (rest : List Token) :
    DerivesAll ns ts → readAll (ts ++ rest) = (readAll rest).map (ns ++ ·)
  | .nil => by
    rw [List.nil_append]
    cases readAll rest <;> rfl
  | .cons head tail => by
    rw [List.append_assoc, readAll_of_readNode (head.readRest_append [] _),
      tail.readAll_append rest]
    cases readAll rest <;> rfl

theorem derivesAll_of_readAll (h : readAll ts = .ok ns) : DerivesAll ns ts := by
  induction ts using readAll.induct generalizing ns with
  | case1 =>
    rw [readAll_nil] at h
    cases h
    exact .nil
  | case2 ts nonempty stuck failed =>
    rw [readAll_of_error nonempty failed] at h
    cases h
  | case3 ts nonempty n rest read ih =>
    rw [readAll_of_readNode read] at h
    obtain ⟨ms, others, rfl⟩ := Outcome.map_eq_ok_iff.mp h
    obtain ⟨used, rfl, derived⟩ := derives_of_readNode read
    exact .cons derived (ih others)

/-- **Tokens are read as the nodes that derive them**, and as no others. -/
theorem readAll_eq_ok_iff : readAll ts = .ok ns ↔ DerivesAll ns ts := by
  refine ⟨derivesAll_of_readAll, fun derived => ?_⟩
  have read := derived.readAll_append []
  rw [List.append_nil, readAll_nil] at read
  exact read.trans (congrArg Except.ok (List.append_nil ns))

theorem ofTokens_eq_ok_iff : ofTokens ts = .ok ns ↔ ts ≠ [] ∧ DerivesAll ns ts := by
  unfold ofTokens
  split
  · rename_i empty
    simp [empty]
  · rename_i nonempty
    rw [Outcome.mapError_eq_ok_iff, readAll_eq_ok_iff, and_iff_right nonempty]

/-! ## Parts of what is derived -/

theorem Derives.length_pos (h : Derives n ts) : 0 < ts.length :=
  List.length_pos_of_ne_nil h.ne_nil

theorem derivesAll_cons_iff : DerivesAll (n :: ns) ts ↔
    ∃ us vs, ts = us ++ vs ∧ Derives n us ∧ DerivesAll ns vs := by
  constructor
  · intro h
    cases h with
    | cons head tail => exact ⟨_, _, rfl, head, tail⟩
  · rintro ⟨us, vs, rfl, head, tail⟩
    exact .cons head tail

/-- A list derives two marks and what its elements derive. -/
theorem Derives.exists_inner {elements : List Node} (h : Derives (.list elements) ts) :
    ∃ inner, DerivesAll elements inner ∧ ts.length = inner.length + 2 := by
  cases h with
  | leaf h => cases h
  | @list _ inner _ _ _ derived => exact ⟨inner, derived, by simp⟩

theorem DerivesAll.length_le (h : DerivesAll ns ts) : ns.length ≤ ts.length := by
  induction ns generalizing ts with
  | nil => exact Nat.zero_le _
  | cons n ns ih =>
    obtain ⟨us, vs, rfl, head, tail⟩ := derivesAll_cons_iff.mp h
    have head_pos := head.length_pos
    have tail_le := ih tail
    rw [List.length_cons, List.length_append]
    omega

/-- The last of some nodes derive the last tokens. -/
theorem DerivesAll.exists_suffix (h : DerivesAll ns ts) (last : ms <:+ ns) :
    ∃ us, DerivesAll ms us ∧ us <:+ ts := by
  obtain ⟨before, rfl⟩ := last
  induction before generalizing ts with
  | nil => exact ⟨ts, h, List.suffix_rfl⟩
  | cons n before ih =>
    obtain ⟨us, vs, rfl, -, tail⟩ := derivesAll_cons_iff.mp h
    obtain ⟨ws, derived, suffix⟩ := ih tail
    exact ⟨ws, derived, suffix.trans (List.suffix_append us vs)⟩

/-- A node among others derives some tokens that stand together. -/
theorem DerivesAll.exists_derives_of_mem (h : DerivesAll ns ts) (hn : n ∈ ns) :
    ∃ us, Derives n us ∧ us <:+: ts := by
  obtain ⟨before, after, rfl⟩ := List.append_of_mem hn
  obtain ⟨us, derived, suffix⟩ := h.exists_suffix (List.suffix_append before (n :: after))
  obtain ⟨vs, ws, rfl, head, -⟩ := derivesAll_cons_iff.mp derived
  exact ⟨vs, head, (List.prefix_append vs ws).isInfix.trans suffix.isInfix⟩

end ProtocolGraph.Node
