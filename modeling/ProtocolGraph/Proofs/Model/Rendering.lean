import ProtocolGraph.Model.Source
import ProtocolGraph.Proofs.Node.Rendering

/-!
# Writing and reading

A node that is written as source text is read back, if its leaves are spelt as tokens; and the nodes
of any source text are of this kind.

* **`wellSpelt_of_nodesOfSource`**: the nodes of a text are well spelt.
* **`nodesOfSource_render`**: a well spelt node is the one node of its source text.
-/

namespace ProtocolGraph.Model

variable [Text.Alphabet] {l : Leniency} {s : String} {nodes : List Node}

theorem nodesOfSource_of_scan {tokens : List Token} (h : Token.scan l s = .ok tokens) :
    nodesOfSource l s = (Node.ofTokens tokens).mapError fun fault => .of (.node fault) := by
  rw [nodesOfSource, h]

/-- A text has nodes or a fault of nodes only if it has tokens. -/
theorem exists_scan_of_nodesOfSource (outcome : Except Node.Fault (List Node))
    (h : nodesOfSource l s = outcome.mapError fun fault => .of (.node fault)) :
    ∃ tokens, Token.scan l s = .ok tokens ∧ Node.ofTokens tokens = outcome := by
  cases cut : Token.scan l s with
  | error fault =>
    rw [nodesOfSource, cut] at h
    cases outcome <;> cases h
  | ok tokens =>
    rw [nodesOfSource_of_scan cut] at h
    refine ⟨tokens, rfl, ?_⟩
    revert h
    cases Node.ofTokens tokens <;> cases outcome <;> rintro ⟨⟩ <;> rfl

/-- **The nodes of a text** are well spelt. -/
theorem wellSpelt_of_nodesOfSource (h : nodesOfSource l s = .ok nodes) :
    ∀ n ∈ nodes, n.WellSpelt l := by
  obtain ⟨tokens, cut, read⟩ := exists_scan_of_nodesOfSource (.ok nodes) h
  have spelt := (Token.scan_eq_ok_iff.mp cut).spelt
  exact (Node.ofTokens_eq_ok_iff.mp read).2.wellSpelt spelt

/-- **A well spelt node** is the one node of its source text. -/
theorem nodesOfSource_render {n : Node} (h : n.WellSpelt .strict) (l : Leniency) :
    nodesOfSource l (String.ofList n.render) = .ok [n] := by
  obtain ⟨tokens, derived, divided⟩ := h.writes l 0 [] [] Token.endsWord_nil (.gap Token.blank_nil)
  rw [List.append_nil, List.append_nil] at divided
  have cut : Token.scan l (String.ofList n.render) = .ok tokens := by
    rw [Token.scan_eq_ok_iff, String.toList_ofList]
    exact divided
  have present : tokens ≠ [] := by
    cases derived with
    | cons head tail => exact List.append_ne_nil_of_left_ne_nil head.ne_nil _
  rw [nodesOfSource_of_scan cut, Node.ofTokens_eq_ok_iff.mpr ⟨present, derived⟩]
  rfl

end ProtocolGraph.Model
