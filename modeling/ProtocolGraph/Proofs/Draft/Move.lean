import Mathlib.Logic.Relation
import ProtocolGraph.Proofs.Draft.Extends

/-!
# Drawing as a run of moves

Drawing statements, well or badly ended, takes a draft through `Move`s, of which there are six. A
move says where it starts from: the end of the path, a branch that has been entered and not passed,
or two ends that wait for each other.

* `Tidy`: transitions leave fixed states where the path does not end, and enter states that exist.
  Hence where the path ends nothing is left yet (`Tidy.outgoing_current`).
* `Tidy.of_move`: a move keeps a draft tidy.
* `Tidy.outgoing_entered`, `Tidy.end_kept`: what waits while a branch is drawn stays as it is.
* `Statement.moves_extend`: drawing a statement is a run of moves. An invariant of tidy drafts is
  thus proved by looking at each move once.
-/

namespace ProtocolGraph

namespace Draft

/-- Transitions leave only states that the path has left behind, and enter states that exist. -/
structure Tidy (d : Draft) : Prop where
  sound : d.Sound
  current : ∀ x, d.current = some x → d.Fixed x
  sources : ∀ t ∈ d.transitions, d.Fixed t.source ∧ d.current ≠ some t.source
  targets : ∀ t ∈ d.transitions, ∃ s ∈ d.states, s.id = t.target

/-- One change of a draft in the course of drawing. -/
inductive Move : Draft → Draft → Prop
  /-- A message leads from the end of the path to a new state. -/
  | message {d x label} (here : d.current = some x) (action : label.action ≠ none)
      (unguarded : label.guard = none) : Move d (d.step x label)
  /-- A branch is entered at the end of the path. -/
  | enter {d x} (guard) (here : d.current = some x) : Move d (d.step x (.entering guard))
  /-- A branch that has only been entered is passed. -/
  | pass {d x y guard} (entered : d.outgoing x = [⟨x, y, .entering guard⟩]) :
      Move d (d.step x (.passing guard))
  /-- Ends of the path, if there are any, meet in a new state. -/
  | join {d a b} (apart : ∀ x, a = some x → b ≠ some x)
      (ends : ∀ x, a = some x ∨ b = some x → d.Fixed x ∧ d.outgoing x = []) : Move d (d.join a b)
  /-- A label is placed at the end of the path. -/
  | place {d e name x} (placed : d.place name = .ok (x, e)) :
      Move d ((e.connectFrom d.current x {}).moveTo (some x))
  /-- The end of the path jumps to a label. -/
  | jump {d x} (target) (here : d.current = some x) : Move d (d.jump x target)

variable {d e : Draft} {x y : StateId} {n : String}

/-! ## What operations draw -/

theorem connectFrom_eq (source : Option StateId) (target : StateId) (label : Label) (d : Draft) :
    d.connectFrom source target label = { d with
      transitions := d.transitions ++ source.toList.map fun x => ⟨x, target, label⟩ } := by
  cases source with
  | none => simp [connectFrom]
  | some x => rfl

/-- The transitions by which ends of the path enter the state where they meet. -/
def joining (a b : Option StateId) (target : StateId) : List Transition :=
  (a.toList.map fun x => ⟨x, target, .leaving "ifend"⟩) ++
    b.toList.map fun x => ⟨x, target, .leaving "elseend"⟩

theorem join_eq {a b : Option StateId} (h : ¬(a = none ∧ b = none)) (d : Draft) :
    d.join a b = { d.addState none with
      transitions := d.transitions ++ joining a b d.nextState
      current := some d.nextState } := by
  unfold join
  rw [if_neg h, connectFrom_eq, connectFrom_eq]
  simp only [moveTo, addState, joining, List.append_assoc]

theorem jump_eq (d : Draft) (x : StateId) (n : String) :
    d.jump x n = { (d.reserve n).2 with
      transitions := d.transitions ++ [⟨x, (d.reserve n).1, {}⟩]
      current := none } := by
  have h : (d.reserve n).2.transitions = d.transitions := by rw [reserve_eq]
  rw [← h]
  rfl

theorem transitions_of_place (h : d.place n = .ok (x, e)) : e.transitions = d.transitions := by
  obtain ⟨-, -, rfl⟩ := place_eq_ok_iff.mp h
  rw [reserve_eq]

/-- A label that is placed at the end of the path is entered from there. -/
theorem transitions_connectFrom_place (h : d.place n = .ok (x, e)) :
    ((e.connectFrom d.current x {}).moveTo (some x)).transitions =
      d.transitions ++ d.current.toList.map fun y => ⟨y, x, {}⟩ := by
  rw [connectFrom_eq, ← transitions_of_place h]
  rfl

theorem states_connectFrom (source : Option StateId) (target : StateId) (label : Label)
    (d : Draft) : (d.connectFrom source target label).states = d.states := by
  cases source <;> rfl

theorem states_join (a b : Option StateId) (d : Draft) : (d.join a b).states =
    d.states ++ if a.isSome || b.isSome then [⟨d.nextState, none⟩] else [] := by
  cases a <;> cases b <;> simp [join, moveTo, connectFrom, connect, addState]

theorem prefix_join (a b : Option StateId) (d : Draft) : d.states <+: (d.join a b).states := by
  rw [states_join]
  exact List.prefix_append _ _

theorem transitions_join (a b : Option StateId) (d : Draft) :
    (d.join a b).transitions = d.transitions ++ joining a b d.nextState := by
  cases a <;> cases b <;> simp [join, moveTo, connectFrom, connect, addState, joining]

theorem mem_joining {a b : Option StateId} {target : StateId} {t : Transition}
    (h : t ∈ joining a b target) :
    t.target = target ∧ (a = some t.source ∨ b = some t.source) := by
  unfold joining at h
  simp only [List.mem_append, List.mem_map, Option.mem_toList] at h
  rcases h with ⟨x, hx, rfl⟩ | ⟨x, hx, rfl⟩
  · exact ⟨rfl, Or.inl hx⟩
  · exact ⟨rfl, Or.inr hx⟩

theorem outgoing_step (label : Label) :
    (d.step x label).outgoing y =
      d.outgoing y ++ if x = y then [⟨x, d.nextState, label⟩] else [] :=
  outgoing_connect (d := d) ⟨x, d.nextState, label⟩

theorem outgoing_of_append {ts : List Transition} (h : e.transitions = d.transitions ++ ts) :
    e.outgoing y = d.outgoing y ++ ts.filter (·.source == y) := by
  unfold outgoing
  rw [h, List.filter_append]

theorem outgoing_place (placed : d.place n = .ok (x, e)) :
    ((e.connectFrom d.current x {}).moveTo (some x)).outgoing y =
      d.outgoing y ++ if d.current = some y then [⟨y, x, {}⟩] else [] := by
  rw [outgoing_of_append (transitions_connectFrom_place placed)]
  cases d.current with
  | none => simp
  | some z => by_cases hz : z = y <;> simp [hz]

theorem outgoing_jump : (d.jump x n).outgoing y =
    d.outgoing y ++ if x = y then [⟨x, (d.reserve n).1, {}⟩] else [] := by
  rw [jump_eq, outgoing_of_append rfl]
  by_cases hx : x = y <;> simp [hx]

theorem outgoing_join (a b : Option StateId) : (d.join a b).outgoing y =
    d.outgoing y ++ ((if a = some y then [⟨y, d.nextState, .leaving "ifend"⟩] else []) ++
      if b = some y then [⟨y, d.nextState, .leaving "elseend"⟩] else []) := by
  by_cases none : a = none ∧ b = none
  · obtain ⟨rfl, rfl⟩ := none
    exact (List.append_nil _).symm
  · rw [join_eq none, outgoing_of_append rfl, joining, List.filter_append]
    have one : ∀ (c : Option StateId) (label : Label),
        (c.toList.map fun z => (⟨z, d.nextState, label⟩ : Transition)).filter (·.source == y) =
          if c = some y then [⟨y, d.nextState, label⟩] else [] := by
      intro c label
      cases c with
      | none => simp
      | some z => by_cases hz : z = y <;> simp [hz]
    rw [one, one]

/-! ## Tidy drafts -/

theorem tidy_empty : empty.Tidy where
  sound := sound_empty
  current := fun x hx => by
    rw [← Option.some.inj hx]
    exact sound_empty.fixed_initial
  sources := fun _ ht => by cases ht
  targets := fun _ ht => by cases ht

namespace Tidy

theorem outgoing_current (h : d.Tidy) (hx : d.current = some x) : d.outgoing x = [] :=
  outgoing_eq_nil_iff.mpr fun t ht e => (h.sources t ht).2 (e ▸ hx)

/-- Where something is left, the state is fixed and the path does not end. -/
theorem of_outgoing (h : d.Tidy) (hx : d.outgoing x ≠ []) : d.Fixed x ∧ d.current ≠ some x := by
  obtain ⟨t, ht⟩ := List.exists_mem_of_ne_nil _ hx
  obtain ⟨hm, rfl⟩ := mem_outgoing.mp ht
  exact h.sources t hm

/-- A tidy draft grows into a tidy one if new transitions leave fixed states, and the path does not
come back to such a state. -/
theorem grow (h : d.Tidy) (sound : e.Sound) (states : d.states ⊆ e.states)
    (placed : d.placed ⊆ e.placed) (ts : List Transition)
    (transitions : e.transitions = d.transitions ++ ts) (sources : ∀ t ∈ ts, d.Fixed t.source)
    (targets : ∀ t ∈ ts, ∃ s ∈ e.states, s.id = t.target)
    (current : ∀ x, e.current = some x → ¬d.Fixed x ∧ e.Fixed x) : e.Tidy := by
  have left : ∀ t ∈ e.transitions, d.Fixed t.source := fun t ht => by
    rw [transitions] at ht
    rcases List.mem_append.mp ht with ht | ht
    · exact (h.sources t ht).1
    · exact sources t ht
  refine ⟨sound, fun x hx => (current x hx).2, fun t ht => ?_, fun t ht => ?_⟩
  · exact ⟨(left t ht).mono states placed, fun hc => (current _ hc).1 (left t ht)⟩
  · rw [transitions] at ht
    rcases List.mem_append.mp ht with ht | ht
    · obtain ⟨s, hs, e⟩ := h.targets t ht
      exact ⟨s, states hs, e⟩
    · exact targets t ht

theorem step (h : d.Tidy) (hx : d.Fixed x) (label : Label) : (d.step x label).Tidy := by
  refine h.grow (h.sound.step x label) (List.subset_append_left _ _) (List.Subset.refl _)
    [⟨x, d.nextState, label⟩] rfl ?_ ?_ ?_
  · intro t ht
    rwa [List.mem_singleton.mp ht]
  · intro t ht
    rw [List.mem_singleton.mp ht]
    exact ⟨_, List.mem_append_right _ (List.mem_singleton_self _), rfl⟩
  · intro y hy
    rw [← Option.some.inj hy]
    exact ⟨h.sound.not_fixed_nextState, fixed_nextState d⟩

theorem join (h : d.Tidy) {a b : Option StateId}
    (fixed : ∀ x, a = some x ∨ b = some x → d.Fixed x) : (d.join a b).Tidy := by
  by_cases none : a = none ∧ b = none
  · obtain ⟨rfl, rfl⟩ := none
    exact h.grow (h.sound.moveTo _) (List.Subset.refl _) (List.Subset.refl _) []
      (List.append_nil _).symm (fun _ ht => by cases ht) (fun _ ht => by cases ht)
      (fun _ hc => by cases hc)
  · rw [join_eq none]
    refine h.grow (h.sound.addUnnamed.of_eq rfl rfl)
      (List.subset_append_left _ _) (List.Subset.refl _) _ rfl ?_ ?_ ?_
    · exact fun t ht => fixed _ (mem_joining ht).2
    · intro t ht
      rw [(mem_joining ht).1]
      exact ⟨_, List.mem_append_right _ (List.mem_singleton_self _), rfl⟩
    · intro y hy
      rw [← Option.some.inj hy]
      exact ⟨h.sound.not_fixed_nextState, fixed_nextState d⟩

theorem place (h : d.Tidy) (hp : d.place n = .ok (x, e)) :
    ((e.connectFrom d.current x {}).moveTo (some x)).Tidy := by
  have extends_e := (Extends.refl h.sound).place hp
  have fixed := fixed_of_place hp
  have drawn := transitions_connectFrom_place hp
  rw [connectFrom_eq] at drawn ⊢
  refine h.grow (extends_e.sound.of_eq rfl rfl) extends_e.states.subset extends_e.placed.subset _
    drawn ?_ ?_ ?_
  · intro t ht
    obtain ⟨y, hy, rfl⟩ := List.mem_map.mp ht
    exact h.current y (Option.mem_toList.mp hy)
  · intro t ht
    obtain ⟨y, -, rfl⟩ := List.mem_map.mp ht
    obtain ⟨name, hs, -⟩ := fixed
    exact ⟨_, hs, rfl⟩
  · intro y hy
    rw [← Option.some.inj hy]
    exact ⟨h.sound.not_fixed_of_place hp, fixed⟩

theorem jump (h : d.Tidy) (hx : d.Fixed x) (n : String) : (d.jump x n).Tidy := by
  have extends_e := (Extends.refl h.sound).reserve n
  rw [jump_eq]
  refine h.grow (extends_e.sound.of_eq rfl rfl)
    extends_e.states.subset extends_e.placed.subset _ rfl ?_ ?_ ?_
  · intro t ht
    rwa [List.mem_singleton.mp ht]
  · intro t ht
    rw [List.mem_singleton.mp ht]
    exact ⟨_, mem_reserve d n, rfl⟩
  · exact fun _ hc => by cases hc

/-- **A move keeps a draft tidy.** -/
theorem of_move (h : d.Tidy) (move : Move d e) : e.Tidy := by
  cases move with
  | message here => exact h.step (h.current _ here) _
  | enter guard here => exact h.step (h.current _ here) _
  | pass entered => exact h.step (h.of_outgoing (by rw [entered]; exact List.cons_ne_nil _ _)).1 _
  | join apart ends => exact h.join fun x hx => (ends x hx).1
  | place placed => exact h.place placed
  | jump target here => exact h.jump (h.current _ here) target

theorem of_moves (h : d.Tidy) (moves : Relation.ReflTransGen Move d e) : e.Tidy := by
  induction moves with
  | refl => exact h
  | tail _ move ih => exact ih.of_move move

/-! ## Branches -/

/-- A branch stays as it was entered until its consequent has been drawn. -/
theorem outgoing_entered (h : d.Tidy) (here : d.current = some x) {label : Label}
    (grown : (d.step x label).Extends e) : e.outgoing x = [⟨x, d.nextState, label⟩] := by
  have fixed := h.current x here
  rw [grown.outgoing_eq (fixed.addState none) (h.sound.away_step fixed), outgoing_step,
    h.outgoing_current here, if_pos rfl, List.nil_append]

/-- The end of a consequent stays as it is while the alternative is drawn. -/
theorem end_kept (h : d.Tidy) (hy : d.current = some y) (left : d.outgoing x ≠ []) {label : Label}
    (grown : (d.step x label).Extends e) :
    e.Fixed y ∧ e.current ≠ some y ∧ e.outgoing y = [] := by
  have fixed := h.current y hy
  have fixed' : (d.step x label).Fixed y := fixed.addState none
  have away : (d.step x label).current ≠ some y := h.sound.away_step fixed
  have other : x ≠ y := by
    rintro rfl
    exact left (h.outgoing_current hy)
  refine ⟨grown.fixed fixed', grown.away fixed' away, ?_⟩
  rw [grown.outgoing_eq fixed' away, outgoing_step, h.outgoing_current hy, if_neg other,
    List.append_nil]

end Tidy

end Draft

/-! ## Drawing statements -/

namespace Statement

open Draft Relation

theorem moves_fromHere {d : Draft} {name : String} {work : StateId → Attempt}
    (hw : ∀ x, d.current = some x → ReflTransGen Move d (work x).draft) :
    ReflTransGen Move d (d.fromHere name work).draft := by
  unfold fromHere
  split
  · exact .refl
  · rename_i x hx
    exact hw x hx

theorem moves_andThen {d : Draft} {a : Attempt} {next : Draft → Attempt}
    (ha : ReflTransGen Move d a.draft) (hn : ReflTransGen Move a.draft (next a.draft).draft) :
    ReflTransGen Move d (a.andThen next).draft := by
  unfold Attempt.andThen
  split
  · exact ha.trans hn
  · exact ha

theorem moves_placeHere (d : Draft) (n : String) : ReflTransGen Move d (d.placeHere n).draft := by
  unfold placeHere
  split
  · exact .refl
  · split
    · exact .refl
    · rename_i x e hp
      exact .single (.place hp)

/-- **Drawing a statement is a run of moves**, whether it fails or not. -/
theorem moves_extend (s : Statement) :
    ∀ {d : Draft}, d.Tidy → ReflTransGen Move d (s.extend d).draft := by
  induction s with
  | label name => exact fun {d} _ => moves_placeHere d name
  | send message valuation =>
    exact fun _ => moves_fromHere fun x hx => .single (.message hx nofun rfl)
  | receive message =>
    exact fun _ => moves_fromHere fun x hx => .single (.message hx nofun rfl)
  | jump target => exact fun _ => moves_fromHere fun x hx => .single (.jump target hx)
  | branch guard consequent ih =>
    intro d h
    refine moves_fromHere fun x hx => ?_
    have entered := h.step (h.current x hx) (.entering guard)
    have drawn := ih entered
    have tidy := entered.of_moves drawn
    refine moves_andThen (.head (.enter guard hx) drawn) (.single (.join (fun _ _ => nofun) ?_))
    rintro y (hy | hy)
    · exact ⟨tidy.current y hy, tidy.outgoing_current hy⟩
    · cases hy
  | branchElse guard consequent alternative ihc iha =>
    intro d h
    refine moves_fromHere fun x hx => ?_
    have entered := h.step (h.current x hx) (.entering guard)
    have drawn := ihc entered
    have tidy := entered.of_moves drawn
    have waiting := h.outgoing_entered hx (extends_extend consequent entered.sound)
    refine moves_andThen (.head (.enter guard hx) drawn) ?_
    set e := (consequent.extend (d.step x (.entering guard))).draft
    have pass : Move e (e.step x (.passing guard)) := .pass waiting
    have passed := tidy.of_move pass
    have grown := extends_extend alternative passed.sound
    have left : e.outgoing x ≠ [] := waiting ▸ List.cons_ne_nil _ _
    have alternative_moves := iha passed
    have tidy' := passed.of_moves alternative_moves
    refine moves_andThen (.head pass alternative_moves) (.single (.join (fun y hy => ?_) ?_))
    · exact (tidy.end_kept hy left grown).2.1
    · rintro y (hy | hy)
      · obtain ⟨fixed, -, silent⟩ := tidy.end_kept hy left grown
        exact ⟨fixed, silent⟩
      · exact ⟨tidy'.current y hy, tidy'.outgoing_current hy⟩
  | misread form cause => exact fun _ => moves_fromHere fun _ _ => .refl
  | foreign cause => exact fun _ => .refl

end Statement

end ProtocolGraph
