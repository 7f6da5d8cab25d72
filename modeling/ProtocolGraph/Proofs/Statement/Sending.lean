import ProtocolGraph.Proofs.Statement.Draws
import ProtocolGraph.Proofs.Statement.Spelling
import ProtocolGraph.Proofs.Valuation

/-!
# The values that are sent

A form that sends a message writes the values of its fields as pairs of a keyword and a node. What
the graph records of them is a finite map, so the order of the pairs leaves no trace, and a pair
that came twice would be lost; it is refused.

* `Statement.readPairs_ofPairs_eq_ok_iff`: the valuation that is read from pairs is the one that
  they give, and there is one if their keywords differ and their values have expressions.
* `Valuation.Gives.keys_perm`: it has one entry for each pair.
* `Node.extend_send_eq_done_iff`: what it takes to draw such a form, and what is drawn then.
* **`Node.sent_as_written`**: the valuation recorded is made of the pairs written, in any order.
-/

namespace ProtocolGraph

open Entries

variable {pairs pairs' : List (String × Node)} {v : Valuation}

/-! ## Pairs -/

namespace Node

theorem ofPairs_cons (key : String) (value : Node) (pairs : List (String × Node)) :
    ofPairs ((key, value) :: pairs) = .keyword key :: value :: ofPairs pairs := rfl

/-- Pairs are known from the nodes that write them. -/
theorem ofPairs_injective : Function.Injective ofPairs := by
  intro pairs
  induction pairs with
  | nil =>
    rintro (_ | ⟨q, pairs'⟩) same
    · rfl
    · cases same
  | cons q pairs ih =>
    rintro (_ | ⟨q', pairs'⟩) same
    · cases same
    · rw [ofPairs_cons, ofPairs_cons] at same
      simp only [List.cons.injEq, Node.keyword.injEq] at same
      obtain ⟨key, value, rest⟩ := same
      rw [ih rest, Prod.ext key value]

end Node

namespace Valuation.Gives

theorem perm (h : v.Gives pairs) (order : pairs'.Perm pairs) : v.Gives pairs' := by
  intro key e
  simp only [h key e, order.mem_iff]

/-- Each pair has its value, if the value has an expression. -/
theorem find?_eq (h : v.Gives pairs) (plain : ∀ q ∈ pairs, q.2.Plain) {q : String × Node}
    (hq : q ∈ pairs) : ∃ e, Expression.ofNode q.2 = .ok e ∧ v.find? q.1 = some e := by
  obtain ⟨e, he⟩ := (Expression.exists_ofNode_iff q.2).mpr (plain q hq)
  exact ⟨e, he, (h q.1 e).mpr ⟨q.2, hq, he⟩⟩

/-- **The valuation has one entry for each pair.** -/
theorem keys_perm (h : v.Gives pairs) (distinct : (pairs.map Prod.fst).Nodup)
    (plain : ∀ q ∈ pairs, q.2.Plain) : (keys v.entries).Perm (pairs.map Prod.fst) := by
  refine (List.perm_ext_iff_of_nodup v.nodup_keys distinct).mpr fun key => ?_
  constructor
  · intro hk
    obtain ⟨⟨_, e⟩, he, rfl⟩ := List.mem_map.mp hk
    obtain ⟨value, hq, -⟩ := (h _ e).mp (find?_eq_some_iff.mpr he)
    exact List.mem_map.mpr ⟨_, hq, rfl⟩
  · intro hk
    obtain ⟨q, hq, rfl⟩ := List.mem_map.mp hk
    obtain ⟨e, -, found⟩ := h.find?_eq plain hq
    exact List.mem_map.mpr ⟨_, find?_eq_some_iff.mp found, rfl⟩

end Valuation.Gives

namespace Statement

/-- **What is read from pairs** is what they give, if no keyword comes twice and every value has an
expression. -/
theorem readPairs_ofPairs_eq_ok_iff : readPairs ∅ (Node.ofPairs pairs) = .ok v ↔
    (pairs.map Prod.fst).Nodup ∧ (∀ q ∈ pairs, q.2.Plain) ∧ v.Gives pairs := by
  constructor
  · intro h
    obtain ⟨written, same, distinct, plain⟩ := (exists_readPairs_empty_iff _).mp ⟨v, h⟩
    obtain rfl := Node.ofPairs_injective same
    exact ⟨distinct, plain, gives_of_readPairs h⟩
  · exact fun ⟨distinct, plain, gives⟩ => readPairs_of_gives distinct plain gives

/-- A statement that can be drawn has a meaning. -/
theorem meaningful_of_extend (s : Statement) :
    ∀ {d e : Draft}, s.extend d = .done e → s.Meaningful := by
  induction s with
  | branch guard consequent ih =>
    intro d e drawn
    obtain ⟨x, -, drawn⟩ := Draft.fromHere_eq_done_iff.mp drawn
    obtain ⟨f, inner, -⟩ := Attempt.andThen_eq_done_iff.mp (Attempt.within_eq_done_iff.mp drawn)
    exact ih inner
  | branchElse guard consequent alternative ihc iha =>
    intro d e drawn
    obtain ⟨x, -, drawn⟩ := Draft.fromHere_eq_done_iff.mp drawn
    obtain ⟨f, first, drawn⟩ := Attempt.andThen_eq_done_iff.mp (Attempt.within_eq_done_iff.mp drawn)
    obtain ⟨g, second, -⟩ := Attempt.andThen_eq_done_iff.mp drawn
    exact ⟨ihc first, iha second⟩
  | misread form cause =>
    intro d e drawn
    obtain ⟨x, -, drawn⟩ := Draft.fromHere_eq_done_iff.mp drawn
    exact Attempt.failed_ne_done _ _ (Attempt.within_eq_done_iff.mp drawn)
  | foreign cause => exact fun drawn => Attempt.failed_ne_done _ _ drawn
  | _ => exact fun _ => trivial

end Statement

/-! ## Forms that send a message -/

namespace Node

open Statement

variable {d e : Draft} {marker arguments : List Node} {message : String}

/-- A form that can be drawn names a message and then writes pairs. -/
theorem exists_pairs_of_extend
    (drawn : (ofNode (.list (.symbol "!send" :: arguments))).extend d = .done e) :
    ∃ marker message pairs, Introduces marker ∧
      arguments = marker ++ .symbol message :: ofPairs pairs := by
  have spelt := spells_iff.mpr ⟨rfl, meaningful_of_extend _ drawn⟩
  generalize ofNode (.list (.symbol "!send" :: arguments)) = s at spelt
  generalize form : list (.symbol "!send" :: arguments) = n at spelt
  cases spelt with
  | send introduced =>
    cases form
    exact ⟨_, _, _, introduced, rfl⟩
  | _ => simp at form

/-- **Pairs are sent** where control may come, if no keyword comes twice and every value has an
expression. -/
theorem extend_send_eq_done_iff (introduced : Introduces marker) :
    (ofNode (.list (.symbol "!send" :: (marker ++ .symbol message :: ofPairs pairs)))).extend d =
        .done e ↔
      (pairs.map Prod.fst).Nodup ∧ (∀ q ∈ pairs, q.2.Plain) ∧
        ∃ v x, v.Gives pairs ∧ d.current = some x ∧ e = d.step x (.sending message v) := by
  rw [ofNode_send introduced]
  constructor
  · intro drawn
    cases read : readPairs ∅ (ofPairs pairs) with
    | error cause =>
      rw [read] at drawn
      exact (meaningful_of_extend _ drawn).elim
    | ok v =>
      rw [read] at drawn
      obtain ⟨distinct, plain, gives⟩ := readPairs_ofPairs_eq_ok_iff.mp read
      obtain ⟨x, standing, drawn⟩ := Draft.fromHere_eq_done_iff.mp drawn
      exact ⟨distinct, plain, v, x, gives, standing, Attempt.done_eq_done_iff.mp drawn⟩
  · rintro ⟨distinct, plain, v, x, gives, standing, rfl⟩
    rw [readPairs_of_gives distinct plain gives]
    exact Draft.fromHere_eq_done_iff.mpr ⟨x, standing, rfl⟩

/-- **The values sent are the pairs written.** Where control may come, a form that sends a message
can be drawn only if its arguments name the message and then are pairs of a keyword and a value. The
transition that it draws has a valuation then, with one entry for each pair and no other: the
keyword has the expression of its value. In any other order the pairs can be drawn too, and leave
the very same draft. If two pairs have the same keyword, they can be drawn in no order. -/
theorem sent_as_written (d : Draft) (x : StateId) (standing : d.current = some x) :
    (∀ arguments e, (ofNode (.list (.symbol "!send" :: arguments))).extend d = .done e →
      ∃ marker message pairs v, Introduces marker ∧
        arguments = marker ++ .symbol message :: ofPairs pairs ∧
        e.transitions = d.transitions ++
          [⟨x, d.nextState, { action := some (.send message), valuation := some v }⟩] ∧
        (keys v.entries).Perm (pairs.map Prod.fst) ∧
        (∀ q ∈ pairs, ∃ value, Expression.ofNode q.2 = .ok value ∧ v.find? q.1 = some value) ∧
        ∀ pairs', pairs'.Perm pairs → (ofNode (.list (.symbol "!send" ::
          (marker ++ .symbol message :: ofPairs pairs')))).extend d = .done e) ∧
    ∀ marker message pairs, Introduces marker → ¬(pairs.map Prod.fst).Nodup →
      ∀ pairs', pairs'.Perm pairs → ∀ e, (ofNode (.list (.symbol "!send" ::
        (marker ++ .symbol message :: ofPairs pairs')))).extend d ≠ .done e := by
  constructor
  · intro arguments e drawn
    obtain ⟨marker, message, pairs, introduced, rfl⟩ := exists_pairs_of_extend drawn
    obtain ⟨distinct, plain, v, y, gives, here, rfl⟩ :=
      (extend_send_eq_done_iff introduced).mp drawn
    obtain rfl : x = y := Option.some.inj (standing.symm.trans here)
    refine ⟨marker, message, pairs, v, introduced, rfl, rfl, gives.keys_perm distinct plain,
      fun q hq => gives.find?_eq plain hq, fun pairs' order => ?_⟩
    have distinct' : (pairs'.map Prod.fst).Nodup := (order.map Prod.fst).nodup_iff.mpr distinct
    exact (extend_send_eq_done_iff introduced).mpr
      ⟨distinct', fun q hq => plain q (order.mem_iff.mp hq), v, x, gives.perm order, standing, rfl⟩
  · intro marker message pairs introduced twice pairs' order e drawn
    have distinct := ((extend_send_eq_done_iff introduced).mp drawn).1
    exact twice ((order.map Prod.fst).nodup_iff.mp distinct)

/-- Two fields may be written in either order, and a third one of a name already used in none. -/
theorem sent_as_written_twoFields : Draft.empty.current = some Draft.initial ∧
    (∃ e, (ofNode (.list [.symbol "!send", .symbol "Ping",
          .keyword ":from", .symbol "x", .keyword ":n", .int 42])).extend Draft.empty = .done e ∧
      (ofNode (.list [.symbol "!send", .symbol "Ping",
          .keyword ":n", .int 42, .keyword ":from", .symbol "x"])).extend Draft.empty = .done e) ∧
    ∀ e, (ofNode (.list [.symbol "!send", .keyword ":message", .symbol "Ping",
        .keyword ":n", .int 42, .keyword ":from", .symbol "x", .keyword ":n", .int 7])).extend
      Draft.empty ≠ .done e := by
  obtain ⟨drawn, refused⟩ := sent_as_written Draft.empty Draft.initial rfl
  refine ⟨rfl, ⟨_, rfl, ?_⟩, fun e => ?_⟩
  · obtain ⟨marker, message, pairs, v, introduced, same, -, -, -, reordered⟩ :=
      drawn [.symbol "Ping", .keyword ":from", .symbol "x", .keyword ":n", .int 42] _ rfl
    obtain rfl | rfl := introduced
    · obtain ⟨name, fields⟩ := List.cons.inj same
      obtain rfl := symbol.inj name
      obtain rfl : [(":from", symbol "x"), (":n", int 42)] = pairs := ofPairs_injective fields
      exact reordered _ (.swap ..)
    · simp at same
  · exact refused [.keyword ":message"] "Ping"
      [(":n", int 42), (":from", symbol "x"), (":n", int 7)] (Or.inr rfl) (by decide) _ (.refl _) e

end Node

end ProtocolGraph
