import ProtocolGraph.Model.Source
import ProtocolGraph.Proofs.Draft.Symmetry
import ProtocolGraph.Proofs.Outcome
import ProtocolGraph.Proofs.Statement.Body

/-!
# The graphs of declared processes

Variables that are in scope play no part in drawing. So the process that a form declares has the
graph that its body draws into the empty draft.

* `Statement.extendAll_withVariables`: other variables in scope make no difference, which is a
  symmetry of drawing (`Draft.symmetry_withVariables`).
* `Declaration.exists_stages`: binding variables, drawing the body, completing the draft.
* `Declaration.exists_graph`: a declared process has the graph that some of its elements draw
  (`Process.HasGraph`), with no label left unplaced unless that is tolerated.
* `Model.exists_elements`: each process of a model is declared by one of the nodes.
-/

namespace ProtocolGraph

/-! ## Variables in scope -/

/-- The same draft with these variables in scope. -/
def Draft.withVariables (scopes : List (List Variable)) (vars : List Variable) (d : Draft) :
    Draft :=
  { d with scopes, vars }

/-- **A name is bound** where a scope is open that does not bind it, and gets the next number. -/
theorem Draft.bind_eq_ok_iff {d e : Draft} {n : String} {x : VariableId} : d.bind n = .ok (x, e) ↔
    ∃ scope outer, d.scopes = scope :: outer ∧ n ∉ scope.map Variable.name ∧ x = d.vars.length ∧
      e = d.withVariables ((scope ++ [⟨x, n⟩]) :: outer) (d.vars ++ [⟨x, n⟩]) := by
  unfold Draft.bind
  cases d.scopes with
  | nil => simp
  | cons scope outer =>
    have again : scope.any (·.name == n) = true ↔ n ∈ scope.map Variable.name := by
      simp [List.any_eq_true]
    simp only [again]
    by_cases taken : n ∈ scope.map Variable.name
    · rw [if_pos taken]
      refine ⟨nofun, ?_⟩
      rintro ⟨_, _, same, fresh, -⟩
      exact (fresh ((List.cons.inj same).1 ▸ taken)).elim
    · rw [if_neg taken]
      constructor
      · rintro ⟨⟩
        exact ⟨scope, outer, rfl, taken, rfl, rfl⟩
      · rintro ⟨_, _, same, -, rfl, rfl⟩
        obtain ⟨rfl, rfl⟩ := List.cons.inj same
        rfl

/-- The attempt with another draft in place of the one that is left. -/
def Attempt.map (f : Draft → Draft) (a : Attempt) : Attempt :=
  { a with draft := f a.draft }

namespace Attempt

variable {f : Draft → Draft} {a : Attempt}

theorem relabel_id : a.relabel id f = a.map f := by
  obtain ⟨draft, failure⟩ := a
  cases failure with
  | none => rfl
  | some g => rw [relabel, Option.map_some, Failure.relabel_id, map]

theorem map_eq_done_iff {e : Draft} : a.map f = done e ↔ ∃ d, a = done d ∧ f d = e := by
  obtain ⟨draft, failure⟩ := a
  simp only [eq_done_iff, map]
  constructor
  · rintro ⟨rfl, rfl⟩
    exact ⟨draft, ⟨rfl, rfl⟩, rfl⟩
  · rintro ⟨d, ⟨rfl, rfl⟩, rfl⟩
    exact ⟨rfl, rfl⟩

theorem result_eq_ok_iff {d : Draft} : a.result = .ok d ↔ a = done d := by
  obtain ⟨draft, failure⟩ := a
  cases failure with
  | none => simp [result, done]
  | some _ => simp [result, done]

theorem result_map : (a.map f).result = a.result.map f := by
  obtain ⟨draft, failure⟩ := a
  cases failure <;> rfl

theorem result_eq_error_iff {g : Failure} : a.result = .error g ↔ a.failure = some g := by
  obtain ⟨draft, failure⟩ := a
  cases failure with
  | none => simp [result]
  | some _ => simp [result]

end Attempt

/-- Drawing does not notice the variables in scope. -/
theorem Draft.symmetry_withVariables (scopes : List (List Variable)) (vars : List Variable) :
    Symmetry id (withVariables scopes vars) where
  start _ := Iff.rfl
  current _ := rfl
  nextState _ := rfl
  addUnnamed _ := rfl
  connect _ _ := rfl
  moveTo _ _ := rfl
  reserve n d := by
    have same : (d.withVariables scopes vars).stateNamed? n = d.stateNamed? n := rfl
    rw [id_eq, reserve, same, reserve]
    cases d.stateNamed? n <;> rfl
  placed _ _ := Iff.rfl
  addPlaced _ _ := rfl

/-- **Variables in scope make no difference** to drawing. -/
theorem Statement.extendAll_withVariables {scopes : List (List Variable)} {vars : List Variable}
    (body : List Statement) (d : Draft) : extendAll body (d.withVariables scopes vars) =
      (extendAll body d).map (Draft.withVariables scopes vars) := by
  have unnamed : body.map (relabel id) = body := by
    rw [funext relabel_id, List.map_id']
  have drawn := (Draft.symmetry_withVariables scopes vars).extendAll body d
  rwa [unnamed, Attempt.relabel_id] at drawn

/-! ## Declared processes -/

/-- The process has the states and transitions of the draft. -/
structure Process.HasGraph (p : Process) (d : Draft) : Prop where
  initial : p.initial = Draft.initial
  states : p.states = d.states
  transitions : p.transitions = d.transitions

namespace Declaration

open Outcome

variable {leniency : Leniency} {f : Form} {d e : Draft} {p : Process} {elements : List Node}

/-- Reading the name of a process leaves the end of its arguments. -/
theorem suffix_of_readName {f g : Form} {name : Option String} (h : readName f = .ok (name, g)) :
    g.arguments <:+ f.arguments := by
  unfold readName at h
  split at h
  · simp only [bind_eq_ok_iff] at h
    obtain ⟨⟨n, g'⟩, hn, symbol, -, heq⟩ := h
    cases heq
    rcases Form.named_eq_ok_iff.mp (mapError_eq_ok_iff.mp hn) with rfl | ⟨rfl, -⟩
    · exact ⟨[_, _], rfl⟩
    · exact ⟨[_], rfl⟩
  · cases h
    exact List.tail_suffix _
  · cases h
    exact List.suffix_rfl

/-- The body of a process is the end of its arguments. -/
theorem suffix_of_readVariables {f : Form} {d : Draft} {body : List Node}
    (h : readVariables f = .ok (d, body)) : body <:+ f.arguments := by
  have skipped : (f.skipKeyword ":vars").2.arguments <:+ f.arguments := by
    unfold Form.skipKeyword
    split
    · split
      · exact (‹f.arguments = _›) ▸ List.suffix_cons _ _
      · exact List.suffix_rfl
    · exact List.suffix_rfl
  unfold readVariables at h
  split at h
  · rename_i g hskip
    rw [hskip] at skipped
    cases h
    exact skipped
  · rename_i g hskip
    rw [hskip] at skipped
    obtain ⟨⟨names, g'⟩, hnames, h⟩ := bind_eq_ok_iff.mp h
    obtain ⟨⟨list, g''⟩, hlist, hnames⟩ := bind_eq_ok_iff.mp (mapError_eq_ok_iff.mp hnames)
    obtain ⟨ns, -, heq⟩ := bind_eq_ok_iff.mp hnames
    obtain ⟨d', -, hbody⟩ := bind_eq_ok_iff.mp h
    cases heq
    cases hbody
    obtain rfl := Form.positional_eq_ok_iff.mp (mapError_eq_ok_iff.mp hlist)
    exact (List.suffix_cons _ _).trans skipped

theorem bindAll_eq_ok {names : List Node} (h : bindAll names d = .ok e) :
    ∃ scopes vars, e = d.withVariables scopes vars := by
  induction names generalizing d with
  | nil =>
    obtain rfl : d = e := Except.ok.inj h
    exact ⟨d.scopes, d.vars, rfl⟩
  | cons n rest ih =>
    simp only [bindAll, bind_eq_ok_iff] at h
    obtain ⟨name, -, ⟨id, d'⟩, hd, h⟩ := h
    obtain ⟨_, _, -, -, -, rfl⟩ := Draft.bind_eq_ok_iff.mp (mapError_eq_ok_iff.mp hd)
    obtain ⟨scopes, vars, rfl⟩ := ih h
    exact ⟨scopes, vars, rfl⟩

theorem readVariables_eq_ok {body : List Node} (h : readVariables f = .ok (d, body)) :
    ∃ scopes vars, d = Draft.empty.withVariables scopes vars := by
  unfold readVariables at h
  split at h
  · cases h
    exact ⟨_, _, rfl⟩
  · simp only [bind_eq_ok_iff] at h
    obtain ⟨⟨names, f⟩, -, d', hb, heq⟩ := h
    obtain ⟨scopes, vars, rfl⟩ := bindAll_eq_ok hb
    cases heq
    exact ⟨scopes, vars, rfl⟩

/-- What is drawn behind the variables of a process is what is drawn without them. -/
theorem exists_drawn_empty {body : List Node} {ss : List Statement}
    (bound : readVariables f = .ok (d, body)) (drawn : Statement.extendAll ss d = .done e) :
    ∃ scopes vars g, d = Draft.empty.withVariables scopes vars ∧
      Statement.extendAll ss Draft.empty = .done g ∧ e = g.withVariables scopes vars := by
  obtain ⟨scopes, vars, rfl⟩ := readVariables_eq_ok bound
  rw [Statement.extendAll_withVariables] at drawn
  obtain ⟨g, alike, rfl⟩ := Attempt.map_eq_done_iff.mp drawn
  exact ⟨scopes, vars, g, rfl, alike, rfl⟩

/-- A completed draft leaves all that was drawn, and no unplaced label unless that is tolerated. -/
theorem finish_eq_ok {name : Option String} (h : d.finish leniency name = .ok p) :
    p = ⟨name, d.vars, Draft.initial, d.states, d.transitions⟩ ∧
      (leniency.unplacedLabels = true ∨ d.unplaced = []) := by
  unfold Draft.finish at h
  split at h
  · cases h
    exact ⟨rfl, Or.inl ‹_›⟩
  · split at h
    · cases h
      exact ⟨rfl, Or.inr ‹_›⟩
    · cases h

theorem ofNodes_eq_ok_iff : reading (Form.ofNodes elements) = .ok f ↔
    elements = .symbol f.name :: f.arguments := by
  obtain ⟨name, arguments⟩ := f
  cases elements with
  | nil => simp [reading, Form.ofNodes, Except.mapError]
  | cons head rest => cases head <;> simp [reading, Form.ofNodes, Except.mapError, Except.map,
      Node.expectSymbol]

theorem within_eq_ok_iff {α : Type} {form : String} {r : Except Failure α} {a : α} :
    within form r = .ok a ↔ r = .ok a :=
  mapError_eq_ok_iff

/-- A list declares a process if it spells one as a form of that name. -/
theorem ofElements_eq_process_iff : ofElements leniency elements = .ok (.process p) ↔
    ∃ arguments, elements = .symbol "defprocess" :: arguments ∧
      readProcess leniency ⟨"defprocess", arguments⟩ = .ok p := by
  unfold ofElements
  simp only [bind_eq_ok_iff, ofNodes_eq_ok_iff]
  constructor
  · rintro ⟨⟨form, arguments⟩, rfl, h⟩
    unfold ofForm at h
    split at h
    · obtain ⟨_, -, heq⟩ := map_eq_ok_iff.mp (within_eq_ok_iff.mp h)
      cases heq
    · split at h
      · rename_i same
        obtain rfl : form = "defprocess" := same
        obtain ⟨_, read, heq⟩ := map_eq_ok_iff.mp (within_eq_ok_iff.mp h)
        cases heq
        exact ⟨arguments, rfl, read⟩
      · cases h
  · rintro ⟨arguments, rfl, read⟩
    refine ⟨⟨"defprocess", arguments⟩, rfl, ?_⟩
    rw [ofForm, if_neg (by simp), if_pos rfl, within_eq_ok_iff, map_eq_ok_iff]
    exact ⟨p, read, rfl⟩

/-- A form declares a process in three stages: its variables are bound, its body is drawn, and the
draft is completed. -/
theorem exists_stages (h : ofElements leniency elements = .ok (.process p)) :
    ∃ f name d body e, body ⊆ elements ∧ readVariables f = .ok (d, body) ∧
      Statement.extendAll (body.map Statement.ofNode) d = .done e ∧
      e.finish leniency name = .ok p := by
  obtain ⟨arguments, rfl, read⟩ := ofElements_eq_process_iff.mp h
  simp only [readProcess, bind_eq_ok_iff] at read
  obtain ⟨⟨name, f⟩, hname, ⟨d, body⟩, hbody, e, drawn, finished⟩ := read
  have suffix := (suffix_of_readVariables hbody).trans (suffix_of_readName hname)
  exact ⟨f, name, d, body, e, fun n hn => List.mem_cons_of_mem _ (suffix.subset hn), hbody,
    Attempt.result_eq_ok_iff.mp drawn, mapError_eq_ok_iff.mp finished⟩

/-- **The graph of a declared process** is what some of its elements draw into the empty draft. -/
theorem exists_graph (h : ofElements leniency elements = .ok (.process p)) :
    ∃ body d, body ⊆ elements ∧
      Statement.extendAll (body.map Statement.ofNode) Draft.empty = .done d ∧ p.HasGraph d ∧
      (leniency.unplacedLabels = true ∨ d.unplaced = []) := by
  obtain ⟨f, name, d, body, e, within, bound, drawn, finished⟩ := exists_stages h
  obtain ⟨scopes, vars, g, -, alike, rfl⟩ := exists_drawn_empty bound drawn
  obtain ⟨rfl, placed⟩ := finish_eq_ok finished
  exact ⟨body, g, within, alike, ⟨rfl, rfl, rfl⟩, placed⟩

end Declaration

theorem Node.mem_filterMap_elements?_iff {nodes elements : List Node} :
    elements ∈ nodes.filterMap Node.elements? ↔ .list elements ∈ nodes := by
  rw [List.mem_filterMap]
  constructor
  · rintro ⟨n, hn, h⟩
    cases n with
    | list _ => exact Option.some.inj h ▸ hn
    | _ => cases h
  · exact fun h => ⟨_, h, rfl⟩

/-- Each declaration is spelt by a list among the nodes. -/
theorem Model.exists_elements_of_mem {leniency : Leniency} {nodes : List Node}
    {declarations : List Declaration} {declaration : Declaration}
    (h : (nodes.filterMap Node.elements?).mapM (Declaration.ofElements leniency) = .ok declarations)
    (hd : declaration ∈ declarations) : ∃ elements, .list elements ∈ nodes ∧
      Declaration.ofElements leniency elements = .ok declaration := by
  obtain ⟨elements, helements, hread⟩ := Outcome.exists_of_mem_mapM h hd
  exact ⟨elements, Node.mem_filterMap_elements?_iff.mp helements, hread⟩

/-- Each process of a model is declared by a list among the nodes. -/
theorem Model.exists_elements {leniency : Leniency} {nodes : List Node} {m : Model} {p : Process}
    (h : ofNodes leniency nodes = .ok m) (hp : p ∈ m.processes) :
    ∃ elements, .list elements ∈ nodes ∧
      Declaration.ofElements leniency elements = .ok (.process p) := by
  obtain ⟨declarations, hd, rfl⟩ := Outcome.map_eq_ok_iff.mp h
  obtain ⟨declaration, hmem, hprocess⟩ := List.mem_filterMap.mp hp
  obtain rfl : declaration = .process p := by
    cases declaration with
    | message _ => cases hprocess
    | process _ => exact congrArg Declaration.process (Option.some.inj hprocess)
  exact exists_elements_of_mem hd hmem

end ProtocolGraph
