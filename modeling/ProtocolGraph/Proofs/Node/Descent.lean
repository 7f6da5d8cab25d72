import ProtocolGraph.Proofs.Node.Derivation
import ProtocolGraph.Token.Cursor

/-!
# Recursive descent

A node can be read by trying one rule after the other: a list, whose elements are read in the same
way, and then each sort of leaf. A rule that fails does not always put the cursor back: inside a
list it is left where the reading got stuck, and the next rules go on from there.

* `Node.Reads`: the readers and how they call each other, as derivations. One that ends has a
  derivation, with the node that it answers, if any, and the cursor that it leaves.
* `Reads.ended`: the cursor has passed a node, or it is at a mark, which is no leaf, or there was no
  token at all. So the rules tried after a list that was given up change nothing.
* `Reads.readNode_eq`: the descent answers what `readNode` does in one pass over the tokens.
* `exists_reads`, `Reads.unique`: every reading ends, and in one way.
* **`descent_exact`**: a reader makes progress, or stops where no other reader can go on.
-/

namespace ProtocolGraph

namespace Cursor

variable {c d : Cursor} {mark : String}

theorem nextIs_iff : c.nextIs .punctuation mark = true ↔
    ∃ t rest, c.rest = t :: rest ∧ t.isMark mark = true := by
  obtain ⟨past, rest⟩ := c
  cases rest <;> simp [nextIs, Token.isMark]

theorem rest_ne_nil (h : c.nextIs .punctuation mark = true) : c.rest ≠ [] := by
  obtain ⟨t, rest, next, -⟩ := nextIs_iff.mp h
  exact next ▸ List.cons_ne_nil t rest

theorem atEnd_eq_false_iff : c.atEnd = false ↔ c.rest ≠ [] := by
  simp [atEnd]

theorem peek_of_rest {t : Token} {rest : List Token} (h : c.rest = t :: rest) :
    c.peek? = some t := by
  rw [peek?, h]
  rfl

theorem past_next {t : Token} {rest : List Token} (h : c.rest = t :: rest) :
    c.next?.2.past = c.past ++ [t] := by
  rw [next?, h]

theorem rest_next {t : Token} {rest : List Token} (h : c.rest = t :: rest) :
    c.next?.2.rest = rest := by
  rw [next?, h]

/-- Among the same tokens, what is still to come tells the place. -/
theorem eq_of_rest (same : d.tokens = c.tokens) (rest : d.rest = c.rest) : d = c := by
  obtain ⟨past, left⟩ := c
  obtain ⟨past', left'⟩ := d
  obtain rfl : left' = left := rest
  obtain rfl := List.append_cancel_right same
  rfl

/-- Where a cursor is put depends on the tokens alone. -/
theorem seek_of_tokens (same : d.tokens = c.tokens) (position : Nat) :
    d.seek position = c.seek position := by
  rw [seek, seek, same]

end Cursor

namespace Node

/-! ## The readers -/

/-- Reads the token at the place as a leaf, if it is one of this sort. -/
def readLeaf (leaf? : Token → Option Node) (c : Cursor) : Option Node × Cursor :=
  match c.peek?.bind leaf? with
  | some n => (some n, c.next?.2)
  | none => (none, c)

/-- The integer that a word denotes. -/
def int? (t : Token) : Option Node :=
  if t.kind = .word then (Text.int64? t.text.toList).map .int else none

/-- The quoted text. -/
def string? (t : Token) : Option Node :=
  if t.kind = .quoted then some (.string t.text) else none

/-- The keyword that a word is, if it starts with a colon. -/
def keyword? (t : Token) : Option Node :=
  if t.kind = .word ∧ t.text.toList.head? = some ':' then some (.keyword t.text) else none

/-- The symbol that a word is. -/
def symbol? (t : Token) : Option Node :=
  if t.kind = .word then some (.symbol t.text) else none

/-- The sorts of leaves, in the order in which they are tried. -/
def leafSorts : List (Token → Option Node) :=
  [int?, string?, keyword?, symbol?]

/-- Tries sorts of leaves one after the other, each from where the one before leaves the cursor. -/
def readLeaves : List (Token → Option Node) → Cursor → Option Node × Cursor
  | [], c => (none, c)
  | leaf? :: others, c =>
    match readLeaf leaf? c with
    | (some n, d) => (some n, d)
    | (none, d) => readLeaves others d

mutual

/-- Reading a node from `c` answers `r` and ends at `d`. A list is tried first, and then the leaves,
from where this leaves the cursor. -/
inductive Reads : Cursor → Option Node → Cursor → Prop
  | list {c n d} (whole : ReadsList c (some n) d) : Reads c (some n) d
  | leaf {c d r e} (failed : ReadsList c none d) (leaves : readLeaves leafSorts d = (r, e)) :
      Reads c r e

/-- Reading a list from `c` answers `r` and ends at `d`. -/
inductive ReadsList : Cursor → Option Node → Cursor → Prop
  | other {c} (other : c.nextIs .punctuation "(" = false) : ReadsList c none c
  | opened {c r d} (opens : c.nextIs .punctuation "(" = true)
      (elements : ReadsElements c.position [] c.next?.2 r d) : ReadsList c r d

/-- Reading the elements from `c` on, of a list that was opened at the position `start` and has the
elements `ns` so far, answers `r` and ends at `d`. -/
inductive ReadsElements : Nat → List Node → Cursor → Option Node → Cursor → Prop
  | atEnd {start ns c} (exhausted : c.atEnd = true) : ReadsElements start ns c none (c.seek start)
  | closed {start ns c} (closes : c.nextIs .punctuation ")" = true) :
      ReadsElements start ns c (some (.list ns)) c.next?.2
  | element {start ns c n d r e} (more : c.atEnd = false)
      (unclosed : c.nextIs .punctuation ")" = false) (element : Reads c (some n) d)
      (others : ReadsElements start (ns ++ [n]) d r e) : ReadsElements start ns c r e
  | stuck {start ns c d} (more : c.atEnd = false) (unclosed : c.nextIs .punctuation ")" = false)
      (element : Reads c none d) : ReadsElements start ns c none d

end

variable {c d e : Cursor} {n : Node} {ns : List Node} {r : Option Node} {start : Nat}

/-! ## Leaves -/

/-- A leaf is read, or the cursor stays where it is. -/
theorem readLeaf_cases (leaf? : Token → Option Node) (c : Cursor) :
    (∃ t rest n, c.rest = t :: rest ∧ leaf? t = some n ∧
      readLeaf leaf? c = (some n, ⟨c.past ++ [t], rest⟩)) ∨
    (∀ t, c.peek? = some t → leaf? t = none) ∧ readLeaf leaf? c = (none, c) := by
  obtain ⟨past, rest⟩ := c
  cases rest with
  | nil => exact Or.inr ⟨nofun, rfl⟩
  | cons t rest =>
    cases leaf : leaf? t with
    | some n =>
      refine Or.inl ⟨t, rest, n, rfl, leaf, ?_⟩
      simp [readLeaf, Cursor.peek?, Cursor.next?, leaf]
    | none =>
      refine Or.inr ⟨fun u same => ?_, ?_⟩
      · obtain rfl := Option.some.inj same
        exact leaf
      · simp [readLeaf, Cursor.peek?, leaf]

/-- Trying sorts of leaves in turn is trying them all on one token. -/
theorem readLeaves_eq_readLeaf (sorts : List (Token → Option Node)) (c : Cursor) :
    readLeaves sorts c = readLeaf (fun t => sorts.findSome? fun leaf? => leaf? t) c := by
  induction sorts with
  | nil =>
    obtain ⟨past, rest⟩ := c
    cases rest <;> rfl
  | cons leaf? others ih =>
    rw [readLeaves]
    rcases readLeaf_cases leaf? c with ⟨t, rest, n, next, leaf, read⟩ | ⟨other, read⟩
    · rw [read]
      simp [readLeaf, Cursor.peek?, Cursor.next?, next, leaf]
    · rw [read]
      refine ih.trans ?_
      unfold readLeaf
      cases next : c.peek? with
      | none => rfl
      | some t => simp [other t next]

/-- **The first sort that fits** gives the leaf that the token denotes. -/
theorem findSome?_leafSorts (t : Token) :
    (leafSorts.findSome? fun leaf? => leaf? t) = ofToken? t := by
  unfold leafSorts ofToken?
  simp only [List.findSome?_cons, List.findSome?_nil, int?, string?, keyword?, symbol?]
  cases t.kind with
  | punctuation | quoted => rfl
  | word =>
    simp only [ofWord, true_and]
    cases Text.int64? t.text.toList with
    | some n => rfl
    | none => by_cases colon : t.text.toList.head? = some ':' <;> simp [colon]

theorem readLeaves_leafSorts (c : Cursor) : readLeaves leafSorts c = readLeaf ofToken? c := by
  rw [readLeaves_eq_readLeaf, funext findSome?_leafSorts]

/-- **A leaf is read** off a token that is one; at punctuation, or at the end, the cursor stays. -/
theorem readLeaves_cases (c : Cursor) :
    (∃ t rest n, c.rest = t :: rest ∧ Leaf t n ∧
      readLeaves leafSorts c = (some n, ⟨c.past ++ [t], rest⟩)) ∨
    (∀ t, c.peek? = some t → t.kind = .punctuation) ∧ readLeaves leafSorts c = (none, c) := by
  rw [readLeaves_leafSorts]
  rcases readLeaf_cases ofToken? c with ⟨t, rest, n, next, leaf, read⟩ | ⟨other, read⟩
  · exact Or.inl ⟨t, rest, n, next, ofToken?_eq_some_iff.mp leaf, read⟩
  · exact Or.inr ⟨fun t next => ofToken?_eq_none_iff.mp (other t next), read⟩

/-! ## Where readers end -/

/-- Nothing was read, and the cursor is at a mark, among the same tokens and not before `start`. -/
structure Halts (start : Nat) (c d : Cursor) : Prop where
  tokens : d.tokens = c.tokens
  forward : start ≤ d.position
  mark : ∃ t, d.peek? = some t ∧ t.kind = .punctuation

/-- What has come of reading a node from `c`: it was read, or the cursor is at a mark, or there was
no token. -/
inductive Ended (c : Cursor) : Option Node → Cursor → Prop
  | read {n : Node} {d : Cursor} {used : List Token} (derived : Derives n used)
      (taken : c.rest = used ++ d.rest) (past : d.past = c.past ++ used) : Ended c (some n) d
  | halted {d : Cursor} (halts : Halts c.position c d) : Ended c none d
  | empty (exhausted : c.rest = []) : Ended c none c

theorem Halts.of_tokens (h : Halts start c d) (same : e.tokens = c.tokens) : Halts start e d :=
  ⟨h.tokens.trans same.symm, h.forward, h.mark⟩

/-- At a mark nothing of any sort is read. -/
theorem Halts.readLeaf_eq {leaf? : Token → Option Node} (h : Halts start c d)
    (sort : leaf? ∈ leafSorts) : readLeaf leaf? d = (none, d) := by
  obtain ⟨t, next, punctuation⟩ := h.mark
  have noLeaf : ofToken? t = none := ofToken?_eq_none_iff.mpr punctuation
  rw [← findSome?_leafSorts, List.findSome?_eq_none_iff] at noLeaf
  simp [readLeaf, next, noLeaf leaf? sort]

/-- At a mark no leaf is read. -/
theorem Halts.readLeaves_eq (h : Halts start c d) : readLeaves leafSorts d = (none, d) := by
  obtain ⟨t, next, punctuation⟩ := h.mark
  simp [readLeaves_leafSorts, readLeaf, next, ofToken?_eq_none_iff.mpr punctuation]

/-- There is a mark at or behind `start`. -/
theorem Halts.rest_ne_nil (h : Halts c.position c d) : c.rest ≠ [] := by
  intro exhausted
  obtain ⟨t, next, -⟩ := h.mark
  have left : 0 < d.rest.length := List.length_pos_of_mem (List.mem_of_head? next)
  have same := congrArg List.length h.tokens
  have forward := h.forward
  simp only [Cursor.tokens, Cursor.position, exhausted, List.length_append, List.length_nil]
    at same forward
  omega

theorem Ended.halts (h : Ended c none d) (present : c.rest ≠ []) : Halts c.position c d := by
  cases h with
  | halted halts => exact halts
  | empty exhausted => exact (present exhausted).elim

theorem Ended.tokens (h : Ended c r d) : d.tokens = c.tokens := by
  cases h with
  | read derived taken past => rw [Cursor.tokens, Cursor.tokens, taken, past, List.append_assoc]
  | halted halts => exact halts.tokens
  | empty => rfl

theorem Ended.forward (h : Ended c r d) : c.position ≤ d.position := by
  cases h with
  | read derived taken past =>
    rw [Cursor.position, Cursor.position, past, List.length_append]
    exact Nat.le_add_right _ _
  | halted halts => exact halts.forward
  | empty => exact Nat.le_refl _

/-- Where a leaf could stand, one is read, or the cursor stays there. -/
theorem ended_of_readLeaves (leaves : readLeaves leafSorts c = (r, d)) : Ended c r d := by
  rcases readLeaves_cases c with ⟨t, rest, n, next, leaf, read⟩ | ⟨punctuation, read⟩
  · cases leaves.symm.trans read
    exact .read (.leaf leaf) next rfl
  · cases leaves.symm.trans read
    cases next : c.rest with
    | nil => exact .empty next
    | cons t rest =>
      have here := Cursor.peek_of_rest next
      exact .halted ⟨rfl, Nat.le_refl _, t, here, punctuation t here⟩

mutual

theorem Reads.ended {c d : Cursor} {r : Option Node} : Reads c r d → Ended c r d
  | .list whole => by
    rcases whole.ended with ⟨-, ⟨⟩, -⟩ | ⟨-, ended⟩
    exact ended
  | .leaf failed leaves => by
    rcases failed.ended with ⟨-, -, rfl⟩ | ⟨opens, ended⟩
    · exact ended_of_readLeaves leaves
    · have halts := ended.halts (Cursor.rest_ne_nil opens)
      cases leaves.symm.trans halts.readLeaves_eq
      exact .halted halts

theorem ReadsList.ended {c d : Cursor} {r : Option Node} : ReadsList c r d →
    c.nextIs .punctuation "(" = false ∧ r = none ∧ d = c ∨
      c.nextIs .punctuation "(" = true ∧ Ended c r d
  | .other other => Or.inl ⟨other, rfl, rfl⟩
  | .opened opens elements => by
    obtain ⟨t, rest, next, mark⟩ := Cursor.nextIs_iff.mp opens
    have forward : c.position ≤ c.next?.2.position := by
      rw [Cursor.position, Cursor.position, Cursor.past_next next, List.length_append]
      exact Nat.le_add_right _ _
    -- Where the tokens run out the cursor is put back, and the opening mark stands there.
    have back : Halts c.position c.next?.2 (c.next?.2.seek c.position) := by
      rw [Cursor.seek_of_tokens (Cursor.tokens_next c), Cursor.seek_position]
      exact ⟨(Cursor.tokens_next c).symm, Nat.le_refl _, t, Cursor.peek_of_rest next,
        kind_of_isMark mark⟩
    refine Or.inr ⟨opens, ?_⟩
    rcases elements.ended forward back with
      ⟨ns, inner, closing, rfl, derived, closes, taken, behind⟩ | ⟨rfl, halts⟩
    · rw [Cursor.rest_next next] at taken
      rw [Cursor.past_next next] at behind
      refine .read (.list mark derived closes) ?_ ?_
      · rw [next, taken, List.cons_append, List.append_assoc, List.singleton_append]
      · rw [behind, List.append_assoc, List.singleton_append]
    · exact .halted (halts.of_tokens (Cursor.tokens_next c).symm)

theorem ReadsElements.ended {start : Nat} {ns : List Node} {c d : Cursor} {r : Option Node} :
    ReadsElements start ns c r d → start ≤ c.position → Halts start c (c.seek start) →
    (∃ ms inner closing, r = some (.list (ns ++ ms)) ∧ DerivesAll ms inner ∧
      closing.isMark ")" = true ∧ c.rest = inner ++ closing :: d.rest ∧
      d.past = c.past ++ (inner ++ [closing])) ∨
    r = none ∧ Halts start c d
  | .atEnd _, _, back => Or.inr ⟨rfl, back⟩
  | .closed closes, _, _ => by
    obtain ⟨t, rest, next, mark⟩ := Cursor.nextIs_iff.mp closes
    refine Or.inl ⟨[], [], t, by rw [List.append_nil], .nil, mark, ?_, Cursor.past_next next⟩
    rw [Cursor.rest_next next]
    exact next
  | .element _ _ element others, forward, back => by
    have first := element.ended
    rw [← Cursor.seek_of_tokens first.tokens] at back
    rcases others.ended (Nat.le_trans forward first.forward) (back.of_tokens first.tokens) with
      ⟨ms, inner, closing, rfl, derived, closes, taken, behind⟩ | ⟨rfl, halts⟩
    · cases first with
      | read head front past =>
        refine Or.inl ⟨_ :: ms, _ ++ inner, closing, ?_, .cons head derived, closes, ?_, ?_⟩
        · rw [List.append_assoc]
          rfl
        · rw [front, taken, List.append_assoc]
        · rw [behind, past, List.append_assoc, List.append_assoc]
    · exact Or.inr ⟨rfl, halts.of_tokens first.tokens.symm⟩
  | .stuck more _ element, forward, _ =>
    have halts := element.ended.halts (Cursor.atEnd_eq_false_iff.mp more)
    Or.inr ⟨rfl, halts.tokens, Nat.le_trans forward halts.forward, halts.mark⟩

end

/-! ## The same outcome in one pass -/

-- The answer stays a variable, and `none` a hypothesis: the recursion is on the derivation, and
-- needs its indices free.
mutual

/-- **Where a reader finds no node** the one pass stops too, unless it would close a list there. -/
theorem Reads.readRest_eq {c d : Cursor} {r : Option Node} (opened : List Opened) :
    Reads c r d → r = none → c.rest ≠ [] → (c.nextIs .punctuation ")" = true → opened = []) →
    readRest opened c.rest = .error d.rest
  | .list _, missing, _, _ => by cases missing
  | .leaf failed leaves, missing, present, unclosed => by
    have inside := failed.readRest_eq opened rfl
    obtain ⟨t, rest, next⟩ := List.exists_cons_of_ne_nil present
    rcases failed.ended with ⟨other, -, same⟩ | ⟨opens, ended⟩
    · rw [same] at leaves
      rcases readLeaves_cases c with ⟨u, us, n, -, -, read⟩ | ⟨punctuation, read⟩
      · obtain ⟨rfl, -⟩ := Prod.mk.inj (read.symm.trans leaves)
        cases missing
      · obtain ⟨-, rfl⟩ := Prod.mk.inj (read.symm.trans leaves)
        -- It is neither a leaf nor an opening mark, nor is it a closing mark that fits.
        have noLeaf : ofToken? t = none :=
          ofToken?_eq_none_iff.mpr (punctuation t (Cursor.peek_of_rest next))
        have shut : ¬t.isMark "(" = true := fun opens => by
          cases other.symm.trans (Cursor.nextIs_iff.mpr ⟨t, rest, next, opens⟩)
        rw [next, readRest, Progress.of_none noLeaf shut fun closes =>
          unclosed (Cursor.nextIs_iff.mpr ⟨t, rest, next, closes⟩)]
    · have halts := ended.halts present
      obtain ⟨-, rfl⟩ := Prod.mk.inj (halts.readLeaves_eq.symm.trans leaves)
      exact inside opens

theorem ReadsList.readRest_eq {c d : Cursor} {r : Option Node} (opened : List Opened) :
    ReadsList c r d → r = none → c.nextIs .punctuation "(" = true →
    readRest opened c.rest = .error d.rest
  | .other other, _, opens => by cases other.symm.trans opens
  | .opened opens elements, missing, _ => by
    obtain ⟨t, rest, next, mark⟩ := Cursor.nextIs_iff.mp opens
    have start : c.rest = c.next?.2.tokens.drop c.position := by
      rw [Cursor.tokens_next]
      exact List.drop_left.symm
    have inner := elements.readRest_eq ⟨c.rest, []⟩ opened missing start
    rw [Cursor.rest_next next, next] at inner
    rw [next, readRest, Progress.of_open mark]
    exact inner

theorem ReadsElements.readRest_eq {start : Nat} {ns : List Node} {c d : Cursor} {r : Option Node}
    (o : Opened) (outer : List Opened) : ReadsElements start ns c r d → r = none →
    o.start = c.tokens.drop start → readRest (o :: outer) c.rest = .error d.rest
  | .atEnd exhausted, _, same => by
    rw [List.isEmpty_iff.mp exhausted]
    exact congrArg Except.error same
  | .closed _, missing, _ => by cases missing
  | .element _ _ element others, missing, same => by
    have behind (o : Opened) := others.readRest_eq o outer missing
    have first := element.ended
    rw [← first.tokens] at same
    cases first with
    | read head front past =>
      rw [front, head.readRest_append, handOver]
      exact behind _ same
  | .stuck more unclosed element, missing, _ =>
    element.readRest_eq (o :: outer) missing (Cursor.atEnd_eq_false_iff.mp more) fun closes => by
      cases unclosed.symm.trans closes

end

/-- The outcome of the one pass that answers `r` and leaves these tokens. -/
def onePass (r : Option Node) (rest : List Token) : Except (List Token) (Node × List Token) :=
  match r with
  | some n => .ok (n, rest)
  | none => .error rest

theorem onePass_injective {r' : Option Node} {left rest : List Token}
    (same : onePass r' left = onePass r rest) : r' = r ∧ left = rest := by
  cases r <;> cases r' <;> simp_all [onePass]

/-- **The descent and the one pass agree**, on the node and on the tokens from the fault on. -/
theorem Reads.readNode_eq (h : Reads c r d) : readNode c.rest = onePass r d.rest := by
  cases r with
  | some n =>
    cases h.ended with
    | read derived taken past =>
      rw [taken]
      exact derived.readRest_append [] d.rest
  | none =>
    cases h.ended with
    | halted halts => exact h.readRest_eq [] rfl halts.rest_ne_nil fun _ => rfl
    | empty exhausted =>
      rw [exhausted]
      rfl

/-! ## Every reading ends

On the same tokens, reading elements goes on to reading a node, and this to reading a list, but no
further: behind an opening mark, and behind an element, fewer tokens are left.
-/

theorem Reads.rest_length_lt (h : Reads c (some n) d) : d.rest.length < c.rest.length := by
  cases h.ended with
  | read derived taken past =>
    have progress := derived.length_pos
    rw [taken, List.length_append]
    omega

mutual

theorem exists_readsList (c : Cursor) : ∃ r d, ReadsList c r d := by
  cases opens : c.nextIs .punctuation "(" with
  | false => exact ⟨none, c, .other opens⟩
  | true =>
    have shorter : c.next?.2.rest.length < c.rest.length := by
      obtain ⟨t, rest, next, -⟩ := Cursor.nextIs_iff.mp opens
      rw [Cursor.rest_next next, next]
      exact Nat.lt_succ_self _
    obtain ⟨r, d, elements⟩ := exists_readsElements c.position [] c.next?.2
    exact ⟨r, d, .opened opens elements⟩
termination_by (c.rest.length, 0)

theorem exists_reads (c : Cursor) : ∃ r d, Reads c r d := by
  obtain ⟨r, d, whole⟩ := exists_readsList c
  cases r with
  | some n => exact ⟨some n, d, .list whole⟩
  | none => exact ⟨_, _, .leaf whole rfl⟩
termination_by (c.rest.length, 1)

theorem exists_readsElements (start : Nat) (ns : List Node) (c : Cursor) :
    ∃ r d, ReadsElements start ns c r d := by
  cases more : c.atEnd with
  | true => exact ⟨_, _, .atEnd more⟩
  | false =>
    cases unclosed : c.nextIs .punctuation ")" with
    | true => exact ⟨_, _, .closed unclosed⟩
    | false =>
      obtain ⟨r, d, element⟩ := exists_reads c
      cases r with
      | none => exact ⟨_, _, .stuck more unclosed element⟩
      | some n =>
        have shorter := element.rest_length_lt
        obtain ⟨r, e, others⟩ := exists_readsElements start (ns ++ [n]) d
        exact ⟨r, e, .element more unclosed element others⟩
termination_by (c.rest.length, 2)

end

/-- **A reading ends in one way only.** -/
theorem Reads.unique {r' : Option Node} (h : Reads c r d) (h' : Reads c r' e) :
    r' = r ∧ e = d := by
  have same : onePass r' e.rest = onePass r d.rest := h'.readNode_eq.symm.trans h.readNode_eq
  have tokens : e.tokens = d.tokens := h'.ended.tokens.trans h.ended.tokens.symm
  obtain ⟨answer, left⟩ := onePass_injective same
  exact ⟨answer, Cursor.eq_of_rest tokens left⟩

/-- **What a node derives is read off any tokens** that start with it. -/
theorem Derives.reads {used : List Token} (derived : Derives n used) (past rest : List Token) :
    Reads ⟨past, used ++ rest⟩ (some n) ⟨past ++ used, rest⟩ := by
  obtain ⟨r, d, h⟩ := exists_reads ⟨past, used ++ rest⟩
  have same : onePass r d.rest = onePass (some n) rest :=
    h.readNode_eq.symm.trans (derived.readRest_append [] rest)
  have behind : d.tokens = (⟨past ++ used, rest⟩ : Cursor).tokens :=
    h.ended.tokens.trans (List.append_assoc past used rest).symm
  obtain ⟨rfl, left⟩ := onePass_injective same
  exact Cursor.eq_of_rest behind left ▸ h

/-- A list with a stray mark in front is given up at this mark, behind where it was opened. -/
theorem readsList_stray {opening t : Token} {past rest : List Token}
    (opens : opening.isMark "(" = true) (punctuation : t.kind = .punctuation)
    (stray : t.isMark "(" = false ∧ t.isMark ")" = false) :
    ReadsList ⟨past, opening :: t :: rest⟩ none ⟨past ++ [opening], t :: rest⟩ := by
  have shut (mark : String) (other : t.isMark mark = false) :
      Cursor.nextIs .punctuation mark ⟨past ++ [opening], t :: rest⟩ = false :=
    Bool.eq_false_iff.mpr fun next => by
      obtain ⟨u, us, same, is⟩ := Cursor.nextIs_iff.mp next
      cases same
      cases is.symm.trans other
  have leaves : readLeaves leafSorts ⟨past ++ [opening], t :: rest⟩ = (none, _) :=
    Halts.readLeaves_eq ⟨rfl, Nat.le_refl _, t, rfl, punctuation⟩
  refine .opened (Cursor.nextIs_iff.mpr ⟨opening, t :: rest, rfl, opens⟩) ?_
  exact .stuck rfl (shut ")" stray.2) (.leaf (.other (shut "(" stray.1)) leaves)

/-- **Every reader makes progress, or stops where no other reader can go on.** A reading from any
cursor ends, in one way. If a node is read, the cursor has passed what this node derives and nothing
else, as it would before any other tokens. If none is, the cursor is not before its start, and at a
punctuation mark unless it was at the end already. So behind a list that was given up no leaf can be
read, and reading a node fails there too, although the cursor need not be back at the start. -/
theorem descent_exact (c : Cursor) :
    (∃ r d, Reads c r d ∧ (∀ r' d', Reads c r' d' → r' = r ∧ d' = d) ∧
      d.tokens = c.tokens ∧ readNode c.rest = onePass r d.rest ∧
      match r with
      | some n => c.position < d.position ∧ ∃ used, Derives n used ∧
          c.rest = used ++ d.rest ∧ d.past = c.past ++ used ∧
          ∀ past rest, Reads ⟨past, used ++ rest⟩ (some n) ⟨past ++ used, rest⟩
      | none => c.position ≤ d.position ∧
          (c.atEnd = true ∧ d = c ∨ ∃ t, d.peek? = some t ∧ t.kind = .punctuation)) ∧
    (∀ d, ReadsList c none d → (d ≠ c ∨ c.nextIs .punctuation "(" = true) →
      (∃ t, d.peek? = some t ∧ t.kind = .punctuation) ∧
        (∀ leaf? ∈ leafSorts, readLeaf leaf? d = (none, d)) ∧ Reads c none d) ∧
    ∃ c d, ReadsList c none d ∧ c.position < d.position := by
  refine ⟨?_, fun d failed moved => ?_, ?_⟩
  · obtain ⟨r, d, h⟩ := exists_reads c
    refine ⟨r, d, h, fun _ _ => h.unique, h.ended.tokens, h.readNode_eq, ?_⟩
    cases h.ended with
    | @read n _ used derived taken past =>
      refine ⟨?_, used, derived, taken, past, derived.reads⟩
      have progress := derived.length_pos
      rw [Cursor.position, Cursor.position, past, List.length_append]
      omega
    | halted halts => exact ⟨halts.forward, Or.inr halts.mark⟩
    | empty exhausted => exact ⟨Nat.le_refl _, Or.inl ⟨List.isEmpty_iff.mpr exhausted, rfl⟩⟩
  · rcases failed.ended with ⟨other, -, same⟩ | ⟨opens, ended⟩
    · rcases moved with elsewhere | opens
      · exact (elsewhere same).elim
      · cases other.symm.trans opens
    · have halts := ended.halts (Cursor.rest_ne_nil opens)
      exact ⟨halts.mark, fun _ => halts.readLeaf_eq, .leaf failed halts.readLeaves_eq⟩
  · exact ⟨⟨[], [⟨.punctuation, 0, "("⟩, ⟨.punctuation, 1, "\x7b"⟩]⟩, _,
      readsList_stray (by decide) rfl (by decide), Nat.lt_succ_self _⟩

/-- A word in an open list, and a list in it that is given up: a mark stands there that neither list
can use. -/
def strayInside : List Token :=
  [⟨.punctuation, 0, "("⟩, ⟨.word, 1, "a"⟩, ⟨.punctuation, 3, "("⟩, ⟨.punctuation, 4, "\x7b"⟩]

theorem descent_exact_strayInside : ∃ d, ReadsList (.ofTokens strayInside) none d ∧
    d ≠ .ofTokens strayInside ∧ d.position = 3 ∧ readLeaf symbol? d = (none, d) ∧
    Reads (.ofTokens strayInside) none d := by
  have word : Reads ⟨strayInside.take 1, strayInside.drop 1⟩ (some (.symbol "a"))
      ⟨strayInside.take 2, strayInside.drop 2⟩ :=
    Derives.reads (.leaf (leaf_ofWord rfl)) _ (strayInside.drop 2)
  have inner : ReadsList ⟨strayInside.take 2, strayInside.drop 2⟩ none
      ⟨strayInside.take 3, strayInside.drop 3⟩ :=
    readsList_stray (by decide) rfl (by decide)
  -- The inner list is given up where it got stuck, and so the outer list is given up there, too.
  obtain ⟨-, -, givenUp⟩ := (descent_exact _).2.1 _ inner (Or.inr rfl)
  have outer : ReadsList (.ofTokens strayInside) none ⟨strayInside.take 3, strayInside.drop 3⟩ :=
    .opened rfl (.element rfl rfl word (.stuck rfl rfl givenUp))
  have moved : (⟨strayInside.take 3, strayInside.drop 3⟩ : Cursor) ≠ .ofTokens strayInside := by
    decide
  obtain ⟨-, noLeaf, failed⟩ := (descent_exact _).2.1 _ outer (Or.inl moved)
  exact ⟨_, outer, moved, rfl, noLeaf symbol? (by simp [leafSorts]), failed⟩

end Node

end ProtocolGraph
