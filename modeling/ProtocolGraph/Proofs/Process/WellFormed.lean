import ProtocolGraph.Proofs.Builder.Operation
import ProtocolGraph.Proofs.Declaration.Graph

/-!
# Well-formed graphs

A graph is `WellFormed` when its numbers and names can be relied on: the states are numbered from
one in their order, the first one is the initial state and the only one named `:start`, no two share
a name, and every transition lies between states that exist.

* `Edit.tidy_run_draw`: drawing leaves a tidy draft, whatever is drawn and however often it fails.
  Tidy drafts are well-formed (`Draft.Tidy.wellFormed`).
* `Draft.Bound`: while a process is read its one scope binds all the variables that there are, so
  their numbers and names are as they should be (`Draft.Bound.bind`).
* **`Model.wellFormed_throughout`**: what a builder holds is well-formed at every moment, and so are
  the processes of every model.
-/

namespace ProtocolGraph

/-- Numbers and names of states, and the ends of transitions, are as they should be. -/
structure WellFormed (initial : StateId) (states : List State) (transitions : List Transition) :
    Prop where
  /-- States are numbered from one in their order. -/
  numbered : ∀ i (h : i < states.length), states[i].id = i + 1
  /-- The first state is the initial one. -/
  initial_eq : initial = 1
  /-- The initial state is named as such. -/
  start : ⟨initial, some Draft.startLabel⟩ ∈ states
  /-- No other state is. -/
  start_only : ∀ s ∈ states, s.name = some Draft.startLabel → s.id = initial
  /-- No two states share a name. -/
  names : (states.filterMap State.name).Nodup
  /-- Transitions leave states that exist. -/
  sources : ∀ t ∈ transitions, ∃ s ∈ states, s.id = t.source
  /-- Transitions enter states that exist. -/
  targets : ∀ t ∈ transitions, ∃ s ∈ states, s.id = t.target

/-! ## Drafts -/

namespace Draft

variable {d e : Draft} {x : StateId}

theorem Fixed.exists_state (h : d.Fixed x) : ∃ s ∈ d.states, s.id = x := by
  obtain ⟨name, hs, -⟩ := h
  exact ⟨⟨x, name⟩, hs, rfl⟩

theorem Tidy.wellFormed (h : d.Tidy) : WellFormed initial d.states d.transitions where
  numbered := h.sound.numbered
  initial_eq := rfl
  start := h.sound.start
  start_only := by
    rintro ⟨x, name⟩ hs rfl
    exact h.sound.eq_of_name hs h.sound.start
  names := h.sound.names
  sources := fun t ht => (h.sources t ht).1.exists_state
  targets := h.targets

end Draft

namespace Edit

open Draft

variable {d : Draft}

theorem draft_draw (statements : List Statement) (d : Draft) :
    ((draw statements).apply d).2 = (Statement.extendAll statements d).draft := by
  simp only [apply]
  split <;> rfl

/-- Drawing keeps a draft tidy, whether it fails or not. -/
theorem tidy_draw (h : d.Tidy) (statements : List Statement) :
    ((draw statements).apply d).2.Tidy := by
  rw [draft_draw]
  exact h.of_moves (Statement.moves_extendAll statements h)

/-- **Drawing again and again keeps a draft tidy**, though nothing of what fails is undone. -/
theorem tidy_run_draw (bodies : List (List Statement)) (h : d.Tidy) :
    (run (bodies.map draw) d).Tidy := by
  induction bodies generalizing d with
  | nil => exact h
  | cons body rest ih => exact ih (tidy_draw h body)

end Edit

/-! ## Variables -/

namespace Draft

variable {d e : Draft} {n : String} {x : VariableId}

/-- One scope is open, which binds all the variables, and these are numbered and named as they
should be. -/
structure Bound (d : Draft) : Prop where
  scopes : d.scopes = [d.vars]
  ids : ∀ i (h : i < d.vars.length), d.vars[i].id = i
  names : (d.vars.map Variable.name).Nodup

theorem bound_openScope_empty : empty.openScope.Bound where
  scopes := rfl
  ids := fun i h => absurd h (Nat.not_lt_zero i)
  names := List.nodup_nil

theorem Bound.bind (h : d.Bound) (hb : d.bind n = .ok (x, e)) : e.Bound := by
  obtain ⟨scope, outer, scopes, fresh, rfl, rfl⟩ := bind_eq_ok_iff.mp hb
  obtain ⟨rfl, rfl⟩ := List.cons.inj (h.scopes.symm.trans scopes)
  refine ⟨rfl, fun i hi => ?_, ?_⟩
  · simp only [withVariables, List.length_append, List.length_singleton] at hi ⊢
    by_cases hlast : i < d.vars.length
    · simp only [List.getElem_append_left hlast]
      exact h.ids i hlast
    · obtain rfl : i = d.vars.length := by omega
      simp
  · rw [withVariables, List.map_append, List.map_singleton, ← List.concat_eq_append]
    exact h.names.concat fresh

end Draft

namespace Declaration

open Outcome

variable {leniency : Leniency} {d e : Draft} {f : Form} {elements : List Node} {p : Process}

theorem bound_bindAll {names : List Node} (h : d.Bound) (hb : bindAll names d = .ok e) :
    e.Bound := by
  induction names generalizing d with
  | nil =>
    obtain rfl : d = e := Except.ok.inj hb
    exact h
  | cons n rest ih =>
    simp only [bindAll, bind_eq_ok_iff] at hb
    obtain ⟨name, -, ⟨id, d'⟩, hd, hb⟩ := hb
    exact ih (h.bind (mapError_eq_ok_iff.mp hd)) hb

theorem bound_readVariables {body : List Node} (h : readVariables f = .ok (d, body)) :
    d.Bound := by
  unfold readVariables at h
  split at h
  · cases h
    exact Draft.bound_openScope_empty
  · simp only [bind_eq_ok_iff] at h
    obtain ⟨⟨names, f⟩, -, d', hb, heq⟩ := h
    cases heq
    exact bound_bindAll Draft.bound_openScope_empty hb

/-- **The variables of a declared process** are numbered from zero in their order, and no two share
a name. -/
theorem vars_of_ofElements (h : ofElements leniency elements = .ok (.process p)) :
    (∀ i (hi : i < p.vars.length), p.vars[i].id = i) ∧ (p.vars.map Variable.name).Nodup := by
  obtain ⟨f, name, d, body, e, -, bound, drawn, finished⟩ := exists_stages h
  have bound' := bound_readVariables bound
  obtain ⟨scopes, vars, g, rfl, -, rfl⟩ := exists_drawn_empty bound drawn
  obtain ⟨rfl, -⟩ := finish_eq_ok finished
  exact ⟨bound'.ids, bound'.names⟩

end Declaration

/-! ## Processes -/

/-- A state that exists is found by its number. -/
theorem Process.exists_state?_eq {p : Process} {x : StateId} (h : ∃ s ∈ p.states, s.id = x) :
    ∃ s, p.state? x = some s := by
  obtain ⟨s, hs, he⟩ := h
  refine Option.isSome_iff_exists.mp ?_
  rw [Process.state?, List.find?_isSome]
  exact ⟨s, hs, beq_iff_eq.mpr he⟩

namespace Model

open Statement

/-- **Graphs are well-formed throughout.** Whatever nodes are translated one after the other with a
new builder, and whichever of them fail half way, the graph that is left is well-formed, and the
path ends at one of its states if anywhere. So the processes of every model are well-formed; their
variables are numbered from zero and have different names, and the ends of their transitions are
found among their states. -/
theorem wellFormed_throughout :
    (∀ nodes : List Node,
      let b := Builder.run (nodes.map .translate) .new
      WellFormed b.initial b.states b.transitions ∧
        ∀ x, b.current = some x → ∃ s ∈ b.states, s.id = x) ∧
    ∀ leniency nodes m p, ofNodes leniency nodes = .ok m → p ∈ m.processes →
      WellFormed p.initial p.states p.transitions ∧
      (∀ i (hi : i < p.vars.length), p.vars[i].id = i) ∧ (p.vars.map Variable.name).Nodup ∧
      ∀ t ∈ p.transitions,
        (∃ s, p.state? t.source = some s) ∧ ∃ s, p.state? t.target = some s := by
  constructor
  · intro nodes b
    have tidy := Edit.tidy_run_draw (nodes.map fun n => [ofNode n]) Draft.tidy_empty
    have drawn : b = _ := Builder.run_eq (nodes.map .translate) .empty
    rw [List.map_map] at tidy drawn
    rw [drawn]
    exact ⟨tidy.wellFormed, fun x hx => (tidy.current x hx).exists_state⟩
  · intro leniency nodes m p h hp
    obtain ⟨elements, -, hread⟩ := exists_elements h hp
    obtain ⟨body, d, -, drawn, graph, -⟩ := Declaration.exists_graph hread
    have wf : WellFormed p.initial p.states p.transitions := by
      rw [graph.initial, graph.states, graph.transitions]
      exact ((extendAll_empty_eq_done_iff.mp drawn).tidy Draft.tidy_empty).wellFormed
    obtain ⟨ids, names⟩ := Declaration.vars_of_ofElements hread
    exact ⟨wf, ids, names, fun t ht => ⟨Process.exists_state?_eq (wf.sources t ht),
      Process.exists_state?_eq (wf.targets t ht)⟩⟩

/-- A branch whose alternative is no statement, and then the label that its consequent jumps to; and
a process with two variables. -/
theorem wellFormed_throughout_broken :
    (∃ b, Builder.run ([.list [.symbol "if", .symbol "ok", .list [.symbol "goto", .keyword ":a"],
        .int 42], .keyword ":a"].map .translate) .new = b ∧
      b.initial = 1 ∧ b.current = some 3 ∧ ∃ s ∈ b.states, s.id = 3) ∧
    ∃ p, ofNodes { unplacedLabels := true } [.list [.symbol "defprocess", .keyword ":vars",
        .list [.symbol "x", .symbol "y"], .list [.symbol "!send", .symbol "Ping"]]] =
          .ok ⟨[], [p]⟩ ∧
      WellFormed p.initial p.states p.transitions ∧ (p.vars.map Variable.name).Nodup := by
  constructor
  · refine ⟨_, rfl, (wellFormed_throughout.1 _).1.initial_eq, ?_,
      (wellFormed_throughout.1 _).2 3 ?_⟩
    all_goals exact congrArg Builder.current (Builder.run_eq _ .empty)
  · refine Exists.imp (fun p h => ⟨h, ?_⟩) ⟨_, rfl⟩
    obtain ⟨wf, -, names, -⟩ := wellFormed_throughout.2 _ _ _ p h (List.mem_singleton_self p)
    exact ⟨wf, names⟩

end Model

end ProtocolGraph
