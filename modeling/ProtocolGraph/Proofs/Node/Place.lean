import ProtocolGraph.Proofs.Node.Derivation

/-!
# Nodes and places

Nodes are read by the kinds and texts of tokens alone. Another `place` of the tokens, which keeps
both, changes nothing but the tokens that an outcome speaks of.

* `Progress.of_map`: one token has the same effect elsewhere.
* **`readAll_map`**: the same nodes are read elsewhere, or the reading fails at the same place.
-/

namespace ProtocolGraph.Node

/-- The tokens are put elsewhere, and keep their kinds and texts. -/
structure Placement (place : Token → Token) : Prop where
  kind : ∀ t, (place t).kind = t.kind
  text : ∀ t, (place t).text = t.text

/-- The list, opened elsewhere. -/
def Opened.map (place : Token → Token) (o : Opened) : Opened :=
  { o with start := o.start.map place }

/-- The same progress elsewhere. -/
def Progress.map (place : Token → Token) : Progress → Progress
  | .ongoing opened => .ongoing (opened.map (Opened.map place))
  | .complete n => .complete n
  | .stuck => .stuck

/-- The same outcome elsewhere. -/
def outcomeMap (place : Token → Token) (outcome : Except (List Token) (Node × List Token)) :
    Except (List Token) (Node × List Token) :=
  (outcome.mapError (List.map place)).map fun (n, rest) => (n, rest.map place)

variable {place : Token → Token} (h : Placement place) (opened : List Opened) (t : Token)
  (ts rest : List Token)

theorem Progress.give_map (place : Token → Token) (n : Node) (opened : List Opened) :
    Progress.give n (opened.map (Opened.map place)) = (Progress.give n opened).map place := by
  cases opened <;> rfl

include h

theorem Placement.isMark (mark : String) : (place t).isMark mark = t.isMark mark := by
  rw [Token.isMark, Token.isMark, h.kind, h.text]

theorem Placement.ofToken? : ofToken? (place t) = ofToken? t := by
  rw [Node.ofToken?, Node.ofToken?, h.kind, h.text]

/-- **One token** has the same effect elsewhere. -/
theorem Progress.of_map : Progress.of (opened.map (Opened.map place)) (place t) (rest.map place) =
    (Progress.of opened t rest).map place := by
  by_cases opens : t.isMark "(" = true
  · rw [of_open opens, of_open ((h.isMark t _).trans opens)]
    rfl
  cases leaf : ofToken? t with
  | some n =>
    have leaf := ofToken?_eq_some_iff.mp leaf
    have there := ofToken?_eq_some_iff.mp ((h.ofToken? t).trans leaf.ofToken?_eq)
    rw [of_leaf leaf, of_leaf there]
    exact give_map place n opened
  | none =>
    have there := (h.ofToken? t).trans leaf
    have shut : ¬(place t).isMark "(" = true := h.isMark t _ ▸ opens
    -- what is left is a closing mark with a list open, or a mark that fits nowhere
    by_cases closes : t.isMark ")" = true ∧ opened ≠ []
    · obtain ⟨o, outer, rfl⟩ := List.exists_cons_of_ne_nil closes.2
      rw [List.map_cons, of_close closes.1, of_close ((h.isMark t _).trans closes.1)]
      exact give_map place _ outer
    · have unclosed : t.isMark ")" = true → opened = [] := by simpa using closes
      rw [of_none leaf opens unclosed, of_none there shut fun closing =>
        List.map_eq_nil_iff.mpr (unclosed (h.isMark t _ ▸ closing))]
      rfl

theorem readRest_map : readRest (opened.map (Opened.map place)) (ts.map place) =
    outcomeMap place (readRest opened ts) := by
  induction ts generalizing opened with
  | nil =>
    cases opened <;> rfl
  | cons t rest ih =>
    rw [List.map_cons, readRest, readRest, Progress.of_map h]
    cases Progress.of opened t rest with
    | ongoing opened => exact ih opened
    | complete n => rfl
    | stuck => rfl

theorem readNode_map : readNode (ts.map place) = outcomeMap place (readNode ts) :=
  readRest_map h [] ts

/-- **The same nodes are read elsewhere**, or the reading fails at the same place. -/
theorem readAll_map : readAll (ts.map place) = (readAll ts).mapError (List.map place) := by
  induction ts using readAll.induct with
  | case1 =>
    rw [List.map_nil, readAll_nil]
    rfl
  | case2 ts nonempty stuck failed =>
    rw [readAll_of_error nonempty failed, readAll_of_error (mt List.map_eq_nil_iff.mp nonempty)
      ((readNode_map h ts).trans (congrArg (outcomeMap place) failed))]
    rfl
  | case3 ts nonempty n rest read ih =>
    rw [readAll_of_readNode read,
      readAll_of_readNode ((readNode_map h ts).trans (congrArg (outcomeMap place) read)), ih]
    cases readAll rest <;> rfl

end ProtocolGraph.Node
