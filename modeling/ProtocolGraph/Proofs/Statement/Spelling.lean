import ProtocolGraph.Proofs.Statement.Reading

/-!
# What nodes spell

`Node.Spells` is the grammar of statements with its meaning: which statement it is that a node
spells. A node spells at most one.

* `Valuation.Gives`: the fields of a message have the values that pairs of a keyword and a node give
  them. Reading the pairs makes such a valuation (`Statement.gives_of_readPairs`), and there is only
  one (`Valuation.Gives.unique`).
* **`Node.spells_iff`**: what a node spells is what is read from it, if that has a meaning;
  `Node.forall₂_spells_iff` says so of the nodes of a body.
-/

namespace ProtocolGraph

/-- Each keyword of the pairs has the expression of its node for a value, and no other keyword has a
value. -/
def Valuation.Gives (v : Valuation) (pairs : List (String × Node)) : Prop :=
  ∀ key e, v.find? key = some e ↔ ∃ value, (key, value) ∈ pairs ∧ Expression.ofNode value = .ok e

namespace Node

/-- What may stand in front of the name of a message. -/
def Introduces (marker : List Node) : Prop :=
  marker = [] ∨ marker = [.keyword ":message"]

/-- The node spells the statement. -/
inductive Spells : Node → Statement → Prop
  | label (name) : Spells (.keyword name) (.label name)
  | send {marker message pairs valuation} (introduced : Introduces marker)
      (distinct : (pairs.map Prod.fst).Nodup) (plain : ∀ q ∈ pairs, q.2.Plain)
      (gives : valuation.Gives pairs) :
      Spells (.list (.symbol "!send" :: (marker ++ .symbol message :: ofPairs pairs)))
        (.send message valuation)
  | receive {marker message} (introduced : Introduces marker) :
      Spells (.list (.symbol "?receive" :: (marker ++ [.symbol message]))) (.receive message)
  | jump (target) : Spells (.list [.symbol "goto", .keyword target]) (.jump target)
  | branch {guard condition consequent s} (read : Expression.ofNode guard = .ok condition)
      (inner : Spells consequent s) :
      Spells (.list [.symbol "if", guard, consequent]) (.branch condition s)
  | branchElse {guard condition consequent alternative s t}
      (read : Expression.ofNode guard = .ok condition) (inner : Spells consequent s)
      (otherwise : Spells alternative t) :
      Spells (.list [.symbol "if", guard, consequent, alternative]) (.branchElse condition s t)

end Node

/-! ## Values -/

theorem Valuation.Gives.unique {v w : Valuation} {pairs : List (String × Node)}
    (hv : v.Gives pairs) (hw : w.Gives pairs) : v = w :=
  Valuation.ext fun key => Option.ext fun e => (hv key e).trans (hw key e).symm

namespace Statement

theorem find?_readPairs {pairs : List (String × Node)} {v w : Valuation}
    (h : readPairs v (Node.ofPairs pairs) = .ok w) (key : String) (e : Expression) :
    w.find? key = some e ↔ v.find? key = some e ∨
      ∃ value, (key, value) ∈ pairs ∧ Expression.ofNode value = .ok e := by
  induction pairs generalizing v with
  | nil =>
    obtain rfl : v = w := Except.ok.inj h
    simp
  | cons q rest ih =>
    obtain ⟨name, node⟩ := q
    obtain ⟨unread, value, hvalue, h⟩ := readPairs_cons_eq_ok_iff.mp h
    rw [ih h, Valuation.find?_insert]
    by_cases hkey : key = name
    · subst hkey
      rw [if_pos rfl, unread]
      grind
    · rw [if_neg hkey]
      grind

theorem gives_of_readPairs {pairs : List (String × Node)} {v : Valuation}
    (h : readPairs ∅ (Node.ofPairs pairs) = .ok v) : v.Gives pairs := by
  intro key e
  rw [find?_readPairs h, Valuation.find?_empty]
  exact or_iff_right nofun

/-- The valuation that pairs give is the one that is read from them. -/
theorem readPairs_of_gives {pairs : List (String × Node)} {v : Valuation}
    (distinct : (pairs.map Prod.fst).Nodup) (plain : ∀ q ∈ pairs, q.2.Plain)
    (gives : v.Gives pairs) : readPairs ∅ (Node.ofPairs pairs) = .ok v := by
  obtain ⟨w, hw⟩ := (exists_readPairs_empty_iff _).mpr ⟨pairs, rfl, distinct, plain⟩
  rw [gives.unique (gives_of_readPairs hw), hw]

end Statement

/-! ## The grammar is what is read -/

namespace Node

open Statement

theorem ofNode_send {marker : List Node} (introduced : Introduces marker) (message : String)
    (arguments : List Node) :
    ofNode (.list (.symbol "!send" :: (marker ++ .symbol message :: arguments))) =
      orMisread "!send" ((readPairs ∅ arguments).map (.send message)) := by
  rcases introduced with rfl | rfl <;> rfl

theorem Spells.ofNode_eq {n : Node} {s : Statement} (h : n.Spells s) : ofNode n = s := by
  induction h with
  | label | jump => rfl
  | send introduced distinct plain gives =>
    rw [ofNode_send introduced, readPairs_of_gives distinct plain gives]
    rfl
  | receive introduced => rcases introduced with rfl | rfl <;> rfl
  | branch read inner ih => rw [ofNode_branch read, ih]
  | branchElse read inner otherwise ihc iha => rw [ofNode_branchElse read, ihc, iha]

theorem Spells.meaningful {n : Node} {s : Statement} (h : n.Spells s) : s.Meaningful := by
  induction h with
  | branch _ _ ih => exact ih
  | branchElse _ _ _ ihc iha => exact ⟨ihc, iha⟩
  | _ => trivial

theorem IsStatement.spells {n : Node} (h : n.IsStatement) : n.Spells (ofNode n) := by
  induction h with
  | label name => exact .label name
  | jump target => exact .jump target
  | @send ns pairs named distinct plain =>
    obtain ⟨v, hv⟩ := (exists_readPairs_empty_iff _).mpr ⟨pairs, rfl, distinct, plain⟩
    have gives := gives_of_readPairs hv
    cases named with
    | bare message =>
      have spelt := @Spells.send [] message pairs v (Or.inl rfl) distinct plain gives
      exact spelt.ofNode_eq ▸ spelt
    | introduced message =>
      have spelt := @Spells.send _ message pairs v (Or.inr rfl) distinct plain gives
      exact spelt.ofNode_eq ▸ spelt
  | receive named =>
    cases named with
    | bare message => exact @Spells.receive [] message (Or.inl rfl)
    | introduced message => exact @Spells.receive _ message (Or.inr rfl)
  | branch plain inner ih =>
    obtain ⟨e, he⟩ := (Expression.exists_ofNode_iff _).mpr plain
    rw [ofNode_branch he]
    exact .branch he ih
  | branchElse plain inner otherwise ihc iha =>
    obtain ⟨e, he⟩ := (Expression.exists_ofNode_iff _).mpr plain
    rw [ofNode_branchElse he]
    exact .branchElse he ihc iha

/-- **What a node spells** is what is read from it, if that has a meaning. -/
theorem spells_iff {n : Node} {s : Statement} : n.Spells s ↔ ofNode n = s ∧ s.Meaningful := by
  constructor
  · exact fun h => ⟨h.ofNode_eq, h.meaningful⟩
  · rintro ⟨rfl, meaning⟩
    exact ((isStatement_iff n).mpr meaning).spells

/-- **What nodes spell** is what is read from them, if all of it has a meaning. -/
theorem forall₂_spells_iff {ns : List Node} {body : List Statement} :
    List.Forall₂ Spells ns body ↔ ns.map ofNode = body ∧ ∀ s ∈ body, s.Meaningful := by
  constructor
  · intro h
    induction h with
    | nil => exact ⟨rfl, by simp⟩
    | cons head _ ih =>
      obtain ⟨rfl, meaning⟩ := spells_iff.mp head
      exact ⟨congrArg _ ih.1, List.forall_mem_cons.mpr ⟨meaning, ih.2⟩⟩
  · rintro ⟨rfl, meaning⟩
    rw [List.forall₂_map_right_iff, List.forall₂_same]
    exact fun n hn => spells_iff.mpr ⟨rfl, meaning _ (List.mem_map_of_mem hn)⟩

/-- Nodes spell one list of statements at most. -/
theorem unique_of_spells {ns : List Node} {body other : List Statement}
    (h : List.Forall₂ Spells ns body) (h' : List.Forall₂ Spells ns other) : body = other :=
  (forall₂_spells_iff.mp h).1.symm.trans (forall₂_spells_iff.mp h').1

end Node

end ProtocolGraph
