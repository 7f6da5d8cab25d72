import Mathlib.Data.List.Basic
import ProtocolGraph.Builder.Basic

/-!
# Builders are drafts

A draft has no counters and no table of names: they can be told from its states and variables. A
builder that keeps them by hand (`Draft.builder`) does with each operation what the draft does, and
fails where the draft fails.

* `Draft.builder_injective`: nothing of a draft gets lost.
* `Draft.declareLabel_builder` and its kin: one lemma for each operation. An operation that fails
  leaves the builder of the draft that there was (`Draft.settled`).
-/

namespace ProtocolGraph

/-! ## Operations -/

namespace Draft

/-- The builder that holds the draft. -/
def builder (d : Draft) : Builder where
  nextState := d.nextState
  nextVariable := d.vars.length
  initial := initial
  current := d.current
  states := d.states
  transitions := d.transitions
  named := d.states.filterMap fun s => s.name.map (·, s.id)
  declared := d.placed
  scopes := d.scopes.map (·.map fun v => (v.name, v))
  vars := d.vars

/-- An outcome that comes with a new draft, with the builder of that draft, or else of the one there
was. -/
def settled {α : Type} (d : Draft) (result : Except Fault (α × Draft)) :
    Except Fault α × Builder :=
  match result with
  | .error fault => (.error fault, d.builder)
  | .ok (a, e) => (.ok a, e.builder)

variable {d e : Draft}

theorem builder_injective (h : d.builder = e.builder) : d = e := by
  obtain ⟨states, transitions, current, placed, scopes, vars⟩ := d
  obtain ⟨states', transitions', current', placed', scopes', vars'⟩ := e
  obtain ⟨-, -, -, rfl, rfl, rfl, -, rfl, same, rfl⟩ := Builder.mk.inj h
  have keyed : Function.Injective fun v : Variable => (v.name, v) := fun _ _ h => (Prod.mk.inj h).2
  obtain rfl := List.map_injective_iff.mpr (List.map_injective_iff.mpr keyed) same
  rfl

theorem builder_empty : empty.builder = Builder.new := rfl

theorem lookup_named (d : Draft) (name : String) :
    d.builder.named.lookup name = d.stateNamed? name := by
  show (d.states.filterMap fun s => s.name.map (·, s.id)).lookup name = _
  unfold stateNamed?
  induction d.states with
  | nil => rfl
  | cons s rest ih =>
    obtain ⟨id, _ | own⟩ := s
    · exact ih
    · by_cases same : own = name
      · subst same
        simp
      · have other : (name == own) = false := beq_false_of_ne (Ne.symm same)
        simpa [List.lookup_cons, other, same] using ih

/-- A name without an entry gets one behind the others. -/
theorem enterName_of_lookup {α : Type} {name : String} {table : List (String × α)}
    (h : table.lookup name = none) (value : α) :
    enterName name value table = table ++ [(name, value)] := by
  unfold enterName
  congr 1
  refine List.filter_eq_self.mpr fun entry member => ?_
  exact decide_eq_true (bne_iff_ne.mp (List.lookup_eq_none_iff.mp h entry member)).symm

theorem builder_addState (name : Option String) (d : Draft) : (d.addState name).builder =
    { d.builder with
      nextState := d.nextState + 1
      states := d.states ++ [⟨d.nextState, name⟩]
      named := d.builder.named ++ (name.map (·, d.nextState)).toList } := by
  have counted : (d.addState name).nextState = d.nextState + 1 := by
    simp [addState, nextState]
  have entries : (d.addState name).builder.named =
      d.builder.named ++ (name.map (·, d.nextState)).toList := by
    simp only [builder, addState, List.filterMap_append]
    cases name <;> rfl
  show Builder.mk _ _ _ _ _ _ (d.addState name).builder.named _ _ _ = _
  rw [entries, counted]
  rfl

theorem allocUnnamedState_builder (d : Draft) :
    d.builder.allocUnnamedState = (d.nextState, (d.addState none).builder) := by
  rw [builder_addState, Option.map_none, Option.toList_none, List.append_nil]
  rfl

theorem allocNamedState_builder (name : String) (d : Draft) :
    d.builder.allocNamedState name = d.settled (d.addNamed name) := by
  unfold Builder.allocNamedState addNamed
  rw [lookup_named]
  cases unknown : d.stateNamed? name with
  | some id => rfl
  | none =>
    rw [← lookup_named] at unknown
    have entered := enterName_of_lookup unknown d.nextState
    simp only [settled, builder_addState, Option.map_some, Option.toList_some, ← entered]
    rfl

theorem jumpTarget_builder (name : String) (d : Draft) :
    d.builder.jumpTarget name = (.ok (d.reserve name).1, (d.reserve name).2.builder) := by
  unfold Builder.jumpTarget Builder.stateForName reserve
  rw [lookup_named, allocNamedState_builder, addNamed]
  cases d.stateNamed? name <;> rfl

theorem declareLabel_builder (name : String) (d : Draft) :
    d.builder.declareLabel name = d.settled (d.place name) := by
  have declare : ∀ e : Draft, e.placed = d.placed → name ∉ d.placed →
      e.builder.declare name = { e with placed := e.placed ++ [name] }.builder := by
    intro e same undeclared
    have undeclared : name ∉ e.builder.declared := fun h => undeclared (same ▸ h)
    unfold Builder.declare
    rw [if_neg undeclared]
    rfl
  unfold Builder.declareLabel Builder.stateForName place
  show (if name ∈ d.placed then _ else _) = d.settled (if name ∈ d.placed then _ else _)
  by_cases declared : name ∈ d.placed
  · rw [if_pos declared, if_pos declared]
    rfl
  · rw [if_neg declared, if_neg declared, lookup_named, allocNamedState_builder, addNamed, reserve]
    cases d.stateNamed? name with
    | some id => exact congrArg (Prod.mk _) (declare d rfl declared)
    | none => exact congrArg (Prod.mk _) (declare (d.addState (some name)) rfl declared)

theorem map_fst_named (d : Draft) :
    d.builder.named.map Prod.fst = d.states.filterMap State.name := by
  show (d.states.filterMap _).map Prod.fst = _
  rw [List.map_filterMap]
  congr 1
  funext s
  rw [Option.map_map]
  exact Option.map_id'

theorem unresolvedLabels_builder (d : Draft) : d.builder.unresolvedLabels = d.unplaced := by
  rw [Builder.unresolvedLabels, map_fst_named]
  rfl

theorem scopes_builder (d : Draft) :
    d.builder.scopes = d.scopes.map (·.map fun v => (v.name, v)) := rfl

theorem closeScope_builder (d : Draft) :
    d.builder.closeScope = d.settled (d.closeScope.map ((), ·)) := by
  unfold Builder.closeScope closeScope
  rw [scopes_builder]
  cases d.scopes <;> rfl

theorem lookup_scope (name : String) (scope : List Variable) :
    (scope.map fun v => (v.name, v)).lookup name = scope.find? (·.name == name) := by
  induction scope with
  | nil => rfl
  | cons v rest ih => rw [List.map_cons, List.lookup_cons, List.find?_cons, ih, Bool.beq_comm]

theorem bindVariable_builder (name : String) (d : Draft) :
    d.builder.bindVariable name = d.settled (d.bind name) := by
  unfold Builder.bindVariable bind
  rw [scopes_builder]
  cases d.scopes with
  | nil => rfl
  | cons scope outer =>
    have taken : (scope.find? (·.name == name)).isSome = scope.any (·.name == name) :=
      List.isSome_find?
    simp only [List.map_cons, lookup_scope, taken]
    by_cases again : scope.any (·.name == name) = true
    · rw [if_pos again, if_pos again]
      rfl
    · rw [if_neg again, if_neg again]
      have unbound : (scope.map fun v => (v.name, v)).lookup name = none := by
        rw [lookup_scope, ← Option.not_isSome_iff_eq_none, taken]
        exact again
      simp only [settled, builder, enterName_of_lookup unbound, List.map_cons, List.map_append,
        List.length_append]
      rfl

theorem resolveVariable_builder (name : String) (d : Draft) :
    d.builder.resolveVariable name = d.resolve name := by
  have found : d.builder.scopes.findSome? (·.lookup name) =
      d.scopes.findSome? (·.find? (·.name == name)) := by
    rw [scopes_builder, List.findSome?_map]
    exact congrArg (d.scopes.findSome? ·) (funext (lookup_scope name))
  unfold Builder.resolveVariable resolve
  rewrite [found]
  rfl

theorem finish_builder (leniency : Leniency) (name : Option String) (d : Draft) :
    d.builder.finish leniency name = d.finish leniency name := by
  unfold Builder.finish finish
  rw [unresolvedLabels_builder]
  rfl

end Draft

end ProtocolGraph
