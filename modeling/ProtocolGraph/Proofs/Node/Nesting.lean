import ProtocolGraph.Proofs.Node.Derivation

/-!
# Nested marks

Whether tokens denote nodes is known from their marks alone: there are only opening and closing
ones, no token stands behind more closing than opening marks, and in the end there are as many of
each.

`Token.Nested depth` says this of tokens in front of which `depth` lists are open. It is carried
from a token to the next by `nested_cons_open`, `nested_cons_close` and `nested_cons_leaf`.

* `Derives.nested_append_iff`: what a node derives leaves the depth as it was.
* `exists_readRest_of_nested`: marks that are nested close every open list.
* **`ofTokens_exact`**: the tokens that have nodes, and which nodes these are.
-/

namespace ProtocolGraph

namespace Token

/-- How many of the tokens are opening marks. -/
def openings (ts : List Token) : Nat :=
  ts.countP (·.isMark "(")

/-- How many of the tokens are closing marks. -/
def closings (ts : List Token) : Nat :=
  ts.countP (·.isMark ")")

/-- Behind `depth` opening marks the tokens close what is open, and nothing else. -/
structure Nested (depth : Nat) (ts : List Token) : Prop where
  /-- No other punctuation stands among the tokens. -/
  marks : ∀ t ∈ ts, t.kind = .punctuation → t.isMark "(" = true ∨ t.isMark ")" = true
  /-- The first tokens never close more than is open. -/
  initial : ∀ us, us <+: ts → closings us ≤ depth + openings us
  /-- All together they close what is open. -/
  total : closings ts = depth + openings ts

variable {t : Token} {ts : List Token} {depth : Nat}

theorem nested_nil_iff : Nested depth [] ↔ depth = 0 := by
  constructor
  · exact fun h => h.total.symm
  · rintro rfl
    exact ⟨by simp, fun us h => by simp [List.prefix_nil.mp h, closings], rfl⟩

/-- One token in front changes the depth by what it opens and closes. -/
theorem nested_cons_iff {depth' : Nat}
    (mark : t.kind = .punctuation → t.isMark "(" = true ∨ t.isMark ")" = true)
    (change : depth' + closings [t] = depth + openings [t]) :
    Nested depth (t :: ts) ↔ Nested depth' ts := by
  have opened : ∀ us, openings (t :: us) = openings us + openings [t] := fun us => by
    simp [openings, List.countP_cons]
  have closed : ∀ us, closings (t :: us) = closings us + closings [t] := fun us => by
    simp [closings, List.countP_cons]
  constructor
  · intro h
    refine ⟨fun u hu => h.marks u (List.mem_cons_of_mem t hu), fun us hus => ?_, ?_⟩
    · have := h.initial (t :: us) (List.cons_prefix_cons.mpr ⟨rfl, hus⟩)
      rw [opened, closed] at this
      omega
    · have := h.total
      rw [opened, closed] at this
      omega
  · intro h
    refine ⟨List.forall_mem_cons.mpr ⟨mark, h.marks⟩, fun us hus => ?_, ?_⟩
    · rcases List.prefix_cons_iff.mp hus with rfl | ⟨us, rfl, inner⟩
      · exact Nat.zero_le _
      · have := h.initial us inner
        rw [opened, closed]
        omega
    · have := h.total
      rw [opened, closed]
      omega

theorem isMark_close_of_open (h : t.isMark "(" = true) : t.isMark ")" = false := by
  simp_all [isMark]

theorem isMark_open_of_close (h : t.isMark ")" = true) : t.isMark "(" = false := by
  simp_all [isMark]

theorem nested_cons_open (h : t.isMark "(" = true) :
    Nested depth (t :: ts) ↔ Nested (depth + 1) ts :=
  nested_cons_iff (fun _ => Or.inl h) (by simp [openings, closings, h, isMark_close_of_open h])

theorem nested_cons_close (h : t.isMark ")" = true) :
    Nested (depth + 1) (t :: ts) ↔ Nested depth ts :=
  nested_cons_iff (fun _ => Or.inr h) (by simp [openings, closings, h, isMark_open_of_close h])

theorem nested_cons_leaf (h : t.kind ≠ .punctuation) : Nested depth (t :: ts) ↔ Nested depth ts :=
  nested_cons_iff (fun mark => (h mark).elim) (by
    simp [openings, closings, Node.isMark_eq_false h])

theorem Nested.isMark_close (h : Nested 0 (t :: ts)) : t.isMark ")" = false := by
  rw [← Bool.not_eq_true]
  intro closes
  have front := h.initial [t] ⟨ts, rfl⟩
  simp [openings, closings, closes, isMark_open_of_close closes] at front

end Token

namespace Node

open Token

variable {n : Node} {ts rest : List Token} {opened : List Opened} {depth : Nat}

/-! ## What is derived is nested -/

mutual

/-- **What a node derives leaves the depth as it was.** -/
theorem Derives.nested_append_iff {n : Node} {ts rest : List Token} {depth : Nat} :
    Derives n ts → (Nested depth (ts ++ rest) ↔ Nested depth rest)
  | .leaf h => nested_cons_leaf h.kind_ne
  | .list opens derived closes => by
    rw [List.cons_append, List.append_assoc, nested_cons_open opens, derived.nested_append_iff]
    exact nested_cons_close closes

theorem DerivesAll.nested_append_iff {ns : List Node} {ts rest : List Token} {depth : Nat} :
    DerivesAll ns ts → (Nested depth (ts ++ rest) ↔ Nested depth rest)
  | .nil => Iff.rfl
  | .cons head tail => by
    rw [List.append_assoc, head.nested_append_iff, tail.nested_append_iff]

end

theorem DerivesAll.nested {ns : List Node} (h : DerivesAll ns ts) : Nested 0 ts := by
  rw [← List.append_nil ts, h.nested_append_iff, nested_nil_iff]

/-! ## What is nested is read -/

/-- **Marks that are nested** close every open list, and what comes behind is nested too. -/
theorem exists_readRest_of_nested (opened : List Opened) (nested : Nested opened.length ts)
    (some : opened ≠ [] ∨ ts ≠ []) :
    ∃ n rest, readRest opened ts = .ok (n, rest) ∧ Nested 0 rest := by
  induction ts generalizing opened with
  | nil =>
    have none := List.length_eq_zero_iff.mp (nested_nil_iff.mp nested)
    exact (some.elim (· none) (· rfl)).elim
  | cons t rest ih =>
    -- Handing over a node leaves the depth at the number of the lists that are still open.
    have given : ∀ n opened', Progress.of opened t rest = .give n opened' →
        Nested opened'.length rest →
        ∃ n rest', readRest opened (t :: rest) = .ok (n, rest') ∧ Nested 0 rest' := by
      intro n opened' progress nested
      rw [readRest_of_give progress]
      cases opened' with
      | nil => exact ⟨n, rest, rfl, nested⟩
      | cons o outer =>
        exact ih ({ o with elements := n :: o.elements } :: outer) nested (Or.inl nofun)
    by_cases opens : t.isMark "(" = true
    · rw [nested_cons_open opens] at nested
      obtain ⟨n, rest', read, after⟩ := ih (⟨t :: rest, []⟩ :: opened) nested (Or.inl nofun)
      refine ⟨n, rest', ?_, after⟩
      rw [readRest, Progress.of_open opens]
      exact read
    cases leaf : ofToken? t with
    | some n =>
      have leaf := ofToken?_eq_some_iff.mp leaf
      exact given n opened (Progress.of_leaf leaf) ((nested_cons_leaf leaf.kind_ne).mp nested)
    | none =>
      have punctuation := ofToken?_eq_none_iff.mp leaf
      have closes := (nested.marks t List.mem_cons_self punctuation).resolve_left opens
      cases opened with
      | nil => cases closes.symm.trans nested.isMark_close
      | cons o outer =>
        exact given _ outer (Progress.of_close closes) ((nested_cons_close closes).mp nested)

theorem exists_readAll_of_nested (nested : Nested 0 ts) : ∃ ns, readAll ts = .ok ns := by
  induction ts using readAll.induct with
  | case1 => exact ⟨[], readAll_nil⟩
  | case2 ts nonempty stuck failed =>
    obtain ⟨n, rest, read, -⟩ := exists_readRest_of_nested [] nested (Or.inr nonempty)
    cases failed.symm.trans read
  | case3 ts nonempty n rest read ih =>
    obtain ⟨n', rest', read', after⟩ :=
      exists_readRest_of_nested [] nested (Or.inr nonempty)
    cases read.symm.trans read'
    obtain ⟨ns, others⟩ := ih after
    exact ⟨n :: ns, by rw [readAll_of_readNode read, others]; rfl⟩

theorem exists_derivesAll_iff : (∃ ns, DerivesAll ns ts) ↔ Nested 0 ts := by
  constructor
  · exact fun ⟨_, derived⟩ => derived.nested
  · exact fun nested => (exists_readAll_of_nested nested).imp fun _ => readAll_eq_ok_iff.mp

/-- **The tokens that have nodes**, and which nodes these are. Tokens are read as certain nodes
exactly when there are tokens and the nodes derive them; and no others derive them. There are such
nodes exactly when there are tokens, no punctuation but the two marks stands among them, no first
part of them has more closing than opening marks, and they have as many of each. -/
theorem ofTokens_exact (ts : List Token) :
    (∀ ns, ofTokens ts = .ok ns ↔ ts ≠ [] ∧ DerivesAll ns ts) ∧
    (∀ ns ms, DerivesAll ns ts → DerivesAll ms ts → ns = ms) ∧
    ((∃ ns, ofTokens ts = .ok ns) ↔ ts ≠ [] ∧ Nested 0 ts) := by
  refine ⟨fun ns => ofTokens_eq_ok_iff, fun ns ms hn hm => ?_, ?_⟩
  · exact Except.ok.inj ((readAll_eq_ok_iff.mpr hn).symm.trans (readAll_eq_ok_iff.mpr hm))
  · simp only [ofTokens_eq_ok_iff, exists_and_left, exists_derivesAll_iff]

/-- The nodes of `(f) -7`, and that its tokens have no others. -/
theorem ofTokens_exact_call :
    ofTokens [⟨.punctuation, 0, "("⟩, ⟨.word, 1, "f"⟩, ⟨.punctuation, 2, ")"⟩, ⟨.word, 4, "-7"⟩] =
      .ok [.list [.symbol "f"], .int (-7)] ∧
    ∀ ms, DerivesAll ms
        [⟨.punctuation, 0, "("⟩, ⟨.word, 1, "f"⟩, ⟨.punctuation, 2, ")"⟩, ⟨.word, 4, "-7"⟩] →
      [.list [.symbol "f"], .int (-7)] = ms := by
  have name : Leaf ⟨.word, 1, "f"⟩ (.symbol "f") :=
    .symbol rfl (Text.int64?_eq_none_iff.mp (by decide)) (by decide)
  have number : Leaf ⟨.word, 4, "-7"⟩ (.int (-7)) :=
    .int rfl (Text.int64?_eq_some_iff_numeral.mp (by decide))
  have derived : DerivesAll [.list [.symbol "f"], .int (-7)]
      [⟨.punctuation, 0, "("⟩, ⟨.word, 1, "f"⟩, ⟨.punctuation, 2, ")"⟩, ⟨.word, 4, "-7"⟩] :=
    .cons (.list (by decide) (derivesAll_singleton (.leaf name)) (by decide))
      (derivesAll_singleton (.leaf number))
  exact ⟨((ofTokens_exact _).1 _).mpr ⟨nofun, derived⟩,
    fun ms => (ofTokens_exact _).2.1 _ ms derived⟩

end Node

end ProtocolGraph
