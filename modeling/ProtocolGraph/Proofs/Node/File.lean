import ProtocolGraph.Proofs.Node.Descent

/-!
# Files by recursive descent

Nodes are read by the descent, one after the other, until no token is left (`parse_file`). Where
none can be read, the file is given up, and the error is the token at which the cursor was left
(`unexpected`).

* `Node.ReadsFile`, `Node.Parses`: these readings, as derivations.
* `ReadsFile.eq`, `exists_readsFile`: a file is read in one way, with the outcome of `readAll`.
* **`parses_iff`**: the outcome of the descent is that of `Node.ofTokens`, errors included.
-/

namespace ProtocolGraph.Node

/-- The error of a reading that was given up here (`unexpected`). -/
def unexpected (c : Cursor) : Fault :=
  match c.peek? with
  | some t => .unexpectedToken t.text t.offset
  | none => .emptyInput

/-- Reading the rest of a file from `c`, with the nodes `ns` so far, has this outcome
(`parse_file`). -/
inductive ReadsFile : List Node → Cursor → Except Fault (List Node) → Prop
  | atEnd {ns c} (exhausted : c.atEnd = true) : ReadsFile ns c (.ok ns)
  | node {ns c n d outcome} (more : c.atEnd = false) (next : Reads c (some n) d)
      (others : ReadsFile (ns ++ [n]) d outcome) : ReadsFile ns c outcome
  | stuck {ns c d} (more : c.atEnd = false) (stuck : Reads c none d) :
      ReadsFile ns c (.error (unexpected d))

/-- Reading a file of these tokens has this outcome (`parse`). -/
inductive Parses : List Token → Except Fault (List Node) → Prop
  | empty : Parses [] (.error .emptyInput)
  | file {tokens outcome} (present : tokens ≠ []) (read : ReadsFile [] (.ofTokens tokens) outcome) :
      Parses tokens outcome

variable {c : Cursor} {ns : List Node} {outcome : Except Fault (List Node)} {tokens : List Token}

/-- The error is that of the tokens from the cursor on. -/
theorem unexpected_eq (c : Cursor) : unexpected c = Fault.at c.rest := by
  obtain ⟨past, rest⟩ := c
  cases rest <;> rfl

/-- **A file has the outcome of the one pass**, behind the nodes so far. -/
theorem ReadsFile.eq (h : ReadsFile ns c outcome) :
    outcome = ((readAll c.rest).mapError Fault.at).map (ns ++ ·) := by
  induction h with
  | @atEnd ns c exhausted =>
    rw [List.isEmpty_iff.mp exhausted, readAll_nil]
    exact congrArg Except.ok (List.append_nil ns).symm
  | @node ns c n d outcome more next others ih =>
    rw [ih, readAll_of_readNode next.readNode_eq]
    cases readAll d.rest with
    | error stuck => rfl
    | ok ms => exact congrArg Except.ok (List.append_assoc ns [n] ms)
  | stuck more stuck =>
    rw [readAll_of_error (Cursor.atEnd_eq_false_iff.mp more) stuck.readNode_eq, unexpected_eq]
    rfl

/-- Each node leaves fewer tokens, so that a file is read to its end or given up. -/
theorem exists_readsFile (ns : List Node) (c : Cursor) : ∃ outcome, ReadsFile ns c outcome := by
  cases more : c.atEnd with
  | true => exact ⟨_, .atEnd more⟩
  | false =>
    obtain ⟨r, d, next⟩ := exists_reads c
    cases r with
    | none => exact ⟨_, .stuck more next⟩
    | some n =>
      have shorter := next.rest_length_lt
      obtain ⟨outcome, others⟩ := exists_readsFile (ns ++ [n]) d
      exact ⟨outcome, .node more next others⟩
termination_by c.rest.length

theorem readsFile_iff : ReadsFile ns c outcome ↔
    outcome = ((readAll c.rest).mapError Fault.at).map (ns ++ ·) := by
  refine ⟨ReadsFile.eq, ?_⟩
  rintro rfl
  obtain ⟨outcome, read⟩ := exists_readsFile ns c
  exact read.eq ▸ read

/-- **The descent and the one pass read a file alike**: there is one outcome, with the same nodes or
the same error. -/
theorem parses_iff : Parses tokens outcome ↔ outcome = ofTokens tokens := by
  have nothing (result : Except Fault (List Node)) : result.map ([] ++ ·) = result := by
    cases result <;> rfl
  constructor
  · rintro (_ | ⟨present, read⟩)
    · exact (if_pos rfl).symm
    · rw [read.eq, nothing, ofTokens, if_neg present]
      rfl
  · rintro rfl
    by_cases empty : tokens = []
    · subst empty
      rw [ofTokens, if_pos rfl]
      exact .empty
    · refine .file empty (readsFile_iff.mpr ?_)
      rw [nothing, ofTokens, if_neg empty]
      rfl

end ProtocolGraph.Node
