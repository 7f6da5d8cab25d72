import ProtocolGraph.Proofs.Model.Relaxed
import ProtocolGraph.Proofs.Model.Rendering
import ProtocolGraph.Proofs.Node.Place
import ProtocolGraph.Proofs.Token.Later

/-!
# One text behind another

A source text behind another one, with blanks between them, declares what it declares alone. Its
declarations come behind those of the first text, and neither text has an effect on the other.

* `Node.ofTokens_append`: the nodes of tokens that stand behind others.
* `ofNodes_append`: nodes are read as declarations one after the other, and the first failure
  counts.
* **`ofSource_append`**: the model of the whole, and its failure if it has none: one of the tokens
  or nodes of the second text comes before any of the declarations of the first.
-/

namespace ProtocolGraph

/-! ## Nodes -/

namespace Node

/-- The same fault, so many bytes later. -/
def Fault.later (k : Nat) : Fault → Fault
  | .emptyInput => .emptyInput
  | .unexpectedToken text offset => .unexpectedToken text (offset + k)

variable {ns : List Node} {ts us : List Token} {k : Nat}

theorem placement_later (k : Nat) : Placement (Token.later k) :=
  ⟨fun _ => rfl, fun _ => rfl⟩

theorem Fault.at_map_later (k : Nat) (stuck : List Token) :
    Fault.at (stuck.map (Token.later k)) = (Fault.at stuck).later k := by
  cases stuck <;> rfl

/-- Behind tokens that have nodes, others have the nodes that they have alone. -/
theorem ofTokens_append (read : ofTokens ts = .ok ns) (nonempty : us ≠ []) :
    ofTokens (ts ++ us.map (Token.later k)) =
      ((ofTokens us).mapError (Fault.later k)).map (ns ++ ·) := by
  obtain ⟨tokens, derived⟩ := ofTokens_eq_ok_iff.mp read
  rw [ofTokens, if_neg (List.append_ne_nil_of_left_ne_nil tokens _), ofTokens, if_neg nonempty,
    derived.readAll_append, readAll_map (placement_later k)]
  cases readAll us with
  | error stuck => exact congrArg Except.error (Fault.at_map_later k stuck)
  | ok ms => rfl

end Node

/-! ## Models -/

namespace Model

variable {l : Leniency} {s w s' : String} {nodes : List Node}

theorem ofNodes_append (l : Leniency) (ns ms : List Node) :
    ofNodes l (ns ++ ms) = do
      let m ← ofNodes l ns
      let m' ← ofNodes l ms
      return ⟨m.messages ++ m'.messages, m.processes ++ m'.processes⟩ := by
  unfold ofNodes
  rw [List.filterMap_append, List.mapM_append]
  cases (ns.filterMap Node.elements?).mapM (Declaration.ofElements l) with
  | error f => rfl
  | ok declarations =>
    cases (ms.filterMap Node.elements?).mapM (Declaration.ofElements l) with
    | error f => rfl
    | ok others =>
      refine congrArg Except.ok ?_
      simp only [ofDeclarations, List.filterMap_append]

section Append

variable [Text.Alphabet] (closed : l.unterminatedText = false) (nonempty : w ≠ "")
  (blank : Text.Blank w.toList) (read : nodesOfSource l s = .ok nodes)

include closed nonempty blank read

theorem nodesOfSource_append_of_fault {fault : Token.Fault} (h : Token.scan l s' = .error fault) :
    nodesOfSource l (s ++ w ++ s') =
      .error (.of (.token (fault.later (s ++ w).utf8ByteSize))) := by
  obtain ⟨tokens, cut, -⟩ := exists_scan_of_nodesOfSource (.ok nodes) read
  rw [nodesOfSource, Token.scan_append closed nonempty blank cut, h]
  rfl

theorem nodesOfSource_append_of_scan {us : List Token} (h : Token.scan l s' = .ok us)
    (present : us ≠ []) : nodesOfSource l (s ++ w ++ s') =
      (((Node.ofTokens us).mapError (Node.Fault.later (s ++ w).utf8ByteSize)).map
        (nodes ++ ·)).mapError fun fault => .of (.node fault) := by
  obtain ⟨tokens, cut, derived⟩ := exists_scan_of_nodesOfSource (.ok nodes) read
  rw [nodesOfSource, Token.scan_append closed nonempty blank cut, h,
    ← Node.ofTokens_append derived present]
  rfl

theorem nodesOfSource_append_of_blank (h : Text.Blank s'.toList) :
    nodesOfSource l (s ++ w ++ s') = .ok nodes := by
  obtain ⟨tokens, cut, derived⟩ := exists_scan_of_nodesOfSource (.ok nodes) read
  rw [nodesOfSource, Token.scan_append closed nonempty blank cut, Token.scan_eq_nil_iff.mpr h]
  rw [← List.append_nil tokens] at derived
  exact congrArg (Except.mapError _) derived

end Append

/-- **One text behind another**, with blanks between them, declares what it declares alone. If both
have nodes, the model holds the messages and processes of the first text and then those of the
second, and the first failure of the two counts. If the second has none, this is the failure, only
later, whatever the first declares; and if there are only blanks in it, the model is that of the
first. -/
theorem ofSource_append [Text.Alphabet] (closed : l.unterminatedText = false) (nonempty : w ≠ "")
    (blank : Text.Blank w.toList) (read : nodesOfSource l s = .ok nodes) (s' : String) :
    (∀ nodes', nodesOfSource l s' = .ok nodes' → ofSource l (s ++ w ++ s') = do
      let m ← ofSource l s
      let m' ← ofSource l s'
      return ⟨m.messages ++ m'.messages, m.processes ++ m'.processes⟩) ∧
    (∀ fault, Token.scan l s' = .error fault →
      ofSource l (s ++ w ++ s') =
        .error (.of (.token (fault.later (s ++ w).utf8ByteSize)))) ∧
    (∀ text offset, nodesOfSource l s' = .error (.of (.node (.unexpectedToken text offset))) →
      ofSource l (s ++ w ++ s') =
        .error (.of (.node (.unexpectedToken text (offset + (s ++ w).utf8ByteSize))))) ∧
    (Text.Blank s'.toList → ofSource l (s ++ w ++ s') = ofSource l s) := by
  refine ⟨fun nodes' read' => ?_, fun fault h => ?_, fun text offset h => ?_, fun h => ?_⟩
  · obtain ⟨us, cut, derived⟩ := exists_scan_of_nodesOfSource (.ok nodes') read'
    have present := (Node.ofTokens_eq_ok_iff.mp derived).1
    have whole := nodesOfSource_append_of_scan closed nonempty blank read cut present
    rw [derived] at whole
    rw [ofSource, whole, ofSource, read, ofSource, read']
    exact ofNodes_append l nodes nodes'
  · rw [ofSource, nodesOfSource_append_of_fault closed nonempty blank read h]
  · obtain ⟨us, cut, failed⟩ :=
      exists_scan_of_nodesOfSource (.error (.unexpectedToken text offset)) h
    have present : us ≠ [] := by
      rintro rfl
      cases failed
    rw [ofSource, nodesOfSource_append_of_scan closed nonempty blank read cut present, failed]
    rfl
  · rw [ofSource, nodesOfSource_append_of_blank closed nonempty blank read h, ofSource, read]

/-- Behind a message stand another one, a quote that is never closed, a mark that closes nothing,
and a line feed. -/
theorem ofSource_append_later :
    (∃ nodes, nodesOfSource .strict "(defmessage A)" = .ok nodes) ∧
    (∃ nodes, nodesOfSource .strict "(defmessage B)" = .ok nodes) ∧
    ofSource .strict ("(defmessage A)" ++ " " ++ "(defmessage B)") =
      .ok ⟨[⟨"A", []⟩, ⟨"B", []⟩], []⟩ ∧
    ofSource .strict ("(defmessage A)" ++ " " ++ "é \"B") =
      .error (.of (.token (.unterminatedText 18))) ∧
    ofSource .strict ("(defmessage A)" ++ " " ++ "é )") =
      .error (.of (.node (.unexpectedToken ")" 18))) ∧
    ofSource .strict ("(defmessage A)" ++ " " ++ "\n") = .ok ⟨[⟨"A", []⟩], []⟩ := by
  have first : ofSource .strict "(defmessage A)" = .ok ⟨[⟨"A", []⟩], []⟩ := by decide +kernel
  have second : ofSource .strict "(defmessage B)" = .ok ⟨[⟨"B", []⟩], []⟩ := by decide +kernel
  obtain ⟨nodes, read, -⟩ :=
    Outcome.bind_eq_ok_iff.mp ((ofSource_eq_bind .strict "(defmessage A)").symm.trans first)
  obtain ⟨nodes', read', -⟩ :=
    Outcome.bind_eq_ok_iff.mp ((ofSource_eq_bind .strict "(defmessage B)").symm.trans second)
  have space : Text.Blank " ".toList := by decide
  have behind := ofSource_append rfl (by decide) space read
  have unterminated : Token.scan .strict "é \"B" = .error (.unterminatedText 3) := by
    decide +kernel
  have unexpected : (nodesOfSource .strict "é )").map (fun _ => ()) =
      .error (.of (.node (.unexpectedToken ")" 3))) := by
    decide +kernel
  refine ⟨⟨nodes, read⟩, ⟨nodes', read'⟩, ?_, ?_, ?_, ?_⟩
  · rw [(behind "(defmessage B)").1 nodes' read', first, second]
    rfl
  · exact (behind "é \"B").2.1 _ unterminated
  · exact (behind "é )").2.2.1 ")" 3 (Outcome.map_eq_error_iff.mp unexpected)
  · rw [(behind "\n").2.2.2 (by decide), first]

end Model

end ProtocolGraph
