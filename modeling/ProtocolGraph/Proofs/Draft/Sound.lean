import Mathlib.Data.List.Nodup
import ProtocolGraph.Statement.Graph

/-!
# Sound drafts

The states of a draft and its label table belong together. A draft is `Sound` when its states are
numbered from one in their order, no two have one name, the initial state is named `:start`, and
every placed label is the name of a state.

* `Fixed d x`: the state exists and its label, if it has one, has been placed. A state that a jump
  has reserved exists but is not fixed.
* Every operation on states and labels keeps a draft sound (`Sound.addState`, `Sound.reserve`,
  `Sound.place`), and a state that it creates or whose label it places was not fixed before
  (`Sound.not_fixed_nextState`, `Sound.not_fixed_of_place`).
* `Sound.stateNamed?_eq_some_iff`: looking up a name finds the one state with that name.
-/

namespace ProtocolGraph

namespace Draft

/-- The names of states, in the order of their creation. -/
def names (d : Draft) : List String :=
  d.states.filterMap State.name

/-- The states are numbered and named as they should be, and the placed labels are names. -/
structure Sound (d : Draft) : Prop where
  ids : d.states.map State.id = List.range' 1 d.states.length
  names : d.names.Nodup
  start : ⟨initial, some startLabel⟩ ∈ d.states
  placed : ∀ n ∈ d.placed, n ∈ d.names
  start_placed : startLabel ∈ d.placed

/-- The state exists, and its label has been placed if it has a name. -/
def Fixed (d : Draft) (x : StateId) : Prop :=
  ∃ name, ⟨x, name⟩ ∈ d.states ∧ ∀ n ∈ name, n ∈ d.placed

variable {d e : Draft} {x y : StateId} {n : String}

theorem mem_names : n ∈ d.names ↔ ∃ x, ⟨x, some n⟩ ∈ d.states := by
  unfold names
  rw [List.mem_filterMap]
  constructor
  · rintro ⟨⟨x, _⟩, hs, rfl⟩
    exact ⟨x, hs⟩
  · rintro ⟨x, hs⟩
    exact ⟨_, hs, rfl⟩

theorem Fixed.mono (states : d.states ⊆ e.states) (placed : d.placed ⊆ e.placed)
    (h : d.Fixed x) : e.Fixed x := by
  obtain ⟨name, hs, hp⟩ := h
  exact ⟨name, states hs, fun n hn => placed (hp n hn)⟩

theorem sound_empty : empty.Sound where
  ids := rfl
  names := List.nodup_singleton startLabel
  start := List.mem_singleton_self _
  placed := fun _ h => h
  start_placed := List.mem_singleton_self _

namespace Sound

/-! ## Numbers -/

theorem lt_nextState (h : d.Sound) {s : State} (hs : s ∈ d.states) : s.id < d.nextState := by
  have hm : s.id ∈ List.range' 1 d.states.length := h.ids ▸ List.mem_map_of_mem hs
  rw [List.mem_range'_1, Nat.add_comm 1] at hm
  exact hm.2

theorem ne_nextState (h : d.Sound) {s : State} (hs : s ∈ d.states) : s.id ≠ d.nextState :=
  Nat.ne_of_lt (h.lt_nextState hs)

/-- A state is known by its number. -/
theorem eq_of_id (h : d.Sound) {s t : State} (hs : s ∈ d.states) (ht : t ∈ d.states)
    (e : s.id = t.id) : s = t :=
  List.inj_on_of_nodup_map (h.ids ▸ List.nodup_range') hs ht e

theorem numbered (h : d.Sound) (i : Nat) (hi : i < d.states.length) : d.states[i].id = i + 1 := by
  have ids : (d.states.map State.id)[i]? = (List.range' 1 d.states.length)[i]? := by
    rw [h.ids]
  rw [List.getElem?_map, List.getElem?_eq_getElem hi, List.getElem?_range' hi] at ids
  exact (Option.some.inj ids).trans (by rw [Nat.one_mul, Nat.add_comm])

theorem fixed_initial (h : d.Sound) : d.Fixed initial := by
  refine ⟨_, h.start, fun n hn => ?_⟩
  rw [← Option.some.inj hn]
  exact h.start_placed

theorem not_fixed_nextState (h : d.Sound) : ¬d.Fixed d.nextState := by
  rintro ⟨name, hs, -⟩
  exact h.ne_nextState hs rfl

theorem name_placed (h : d.Sound) (hx : d.Fixed x) (hs : ⟨x, some n⟩ ∈ d.states) :
    n ∈ d.placed := by
  obtain ⟨name, hs', hp⟩ := hx
  have := h.eq_of_id hs' hs rfl
  simp only [State.mk.injEq, true_and] at this
  exact hp n this

/-! ## Names -/

/-- A state is known by its name. -/
theorem eq_of_name (h : d.Sound) (hx : ⟨x, some n⟩ ∈ d.states) (hy : ⟨y, some n⟩ ∈ d.states) :
    x = y := by
  obtain ⟨i, hi, ex⟩ := List.getElem_of_mem hx
  obtain ⟨j, hj, ey⟩ := List.getElem_of_mem hy
  have hp : d.states.Pairwise fun s t => ∀ m ∈ s.name, ∀ k ∈ t.name, m ≠ k :=
    List.pairwise_filterMap.mp h.names
  rcases Nat.lt_trichotomy i j with hij | rfl | hij
  · exact absurd rfl (List.pairwise_iff_getElem.mp hp i j hi hj hij n (by rw [ex]; rfl) n
      (by rw [ey]; rfl))
  · exact congrArg State.id (ex.symm.trans ey)
  · exact absurd rfl (List.pairwise_iff_getElem.mp hp j i hj hi hij n (by rw [ey]; rfl) n
      (by rw [ex]; rfl))

end Sound

theorem stateNamed?_eq_none_iff : d.stateNamed? n = none ↔ n ∉ d.names := by
  unfold stateNamed?
  rw [Option.map_eq_none_iff, List.find?_eq_none, mem_names]
  constructor
  · rintro h ⟨x, hx⟩
    exact h _ hx (beq_self_eq_true _)
  · rintro h ⟨x, name⟩ hs he
    rw [beq_iff_eq] at he
    exact h ⟨x, he ▸ hs⟩

theorem mem_of_stateNamed? (h : d.stateNamed? n = some x) : ⟨x, some n⟩ ∈ d.states := by
  unfold stateNamed? at h
  obtain ⟨⟨y, name⟩, hf, rfl⟩ := Option.map_eq_some_iff.mp h
  have he : name = some n := by simpa using List.find?_some hf
  exact he ▸ List.mem_of_find?_eq_some hf

/-- Looking up a name finds the one state with that name. -/
theorem Sound.stateNamed?_eq_some_iff (h : d.Sound) :
    d.stateNamed? n = some x ↔ ⟨x, some n⟩ ∈ d.states := by
  refine ⟨mem_of_stateNamed?, fun hx => ?_⟩
  cases hn : d.stateNamed? n with
  | none => exact absurd (mem_names.mpr ⟨x, hx⟩) (stateNamed?_eq_none_iff.mp hn)
  | some y => rw [h.eq_of_name hx (mem_of_stateNamed? hn)]

theorem unplaced_eq_nil_iff : d.unplaced = [] ↔ ∀ n ∈ d.names, n ∈ d.placed := by
  unfold unplaced
  rw [← List.length_eq_zero_iff, List.length_mergeSort, List.length_eq_zero_iff,
    List.filter_eq_nil_iff]
  simp only [decide_eq_true_eq, not_not, names]

theorem mem_unplaced_iff : n ∈ d.unplaced ↔ n ∈ d.names ∧ n ∉ d.placed := by
  unfold unplaced
  rw [List.mem_mergeSort, List.mem_filter, names, decide_eq_true_eq]

theorem sorted_unplaced (d : Draft) : d.unplaced.Pairwise (· ≤ ·) := by
  have ordered := @List.pairwise_mergeSort String (fun a b => decide (a ≤ b))
    (fun a b c hab hbc => decide_eq_true
      (String.le_trans (of_decide_eq_true hab) (of_decide_eq_true hbc)))
    (fun a b => by simpa using String.le_total a b)
    ((d.states.filterMap State.name).filter (· ∉ d.placed))
  simpa only [unplaced, decide_eq_true_eq] using ordered

theorem Sound.nodup_unplaced (h : d.Sound) : d.unplaced.Nodup :=
  (List.mergeSort_perm _ _).nodup_iff.mpr (h.names.filter _)

/-! ## Operations -/

theorem Fixed.addState (h : d.Fixed x) (name : Option String) : (d.addState name).Fixed x :=
  h.mono (List.subset_append_left _ _) (List.Subset.refl _)

theorem fixed_nextState (d : Draft) : (d.addState none).Fixed d.nextState :=
  ⟨none, List.mem_append_right _ (List.mem_singleton_self _), fun _ hn => by cases hn⟩

theorem states_addState (name : Option String) :
    (d.addState name).states = d.states ++ [⟨d.nextState, name⟩] := rfl

theorem names_addState_none : (d.addState none).names = d.names := by
  simp [names, states_addState, List.filterMap_append]

theorem names_addState_some : (d.addState (some n)).names = d.names ++ [n] := by
  simp [names, states_addState, List.filterMap_append]

namespace Sound

theorem addState (h : d.Sound) {name : Option String} (fresh : ∀ n ∈ name, n ∉ d.names) :
    (d.addState name).Sound where
  ids := by
    rw [states_addState, List.map_append, h.ids, List.length_append, List.length_singleton,
      List.range'_concat]
    simp [nextState, Nat.add_comm]
  names := by
    cases name with
    | none =>
      rw [names_addState_none]
      exact h.names
    | some n =>
      rw [names_addState_some]
      exact List.nodup_append.mpr ⟨h.names, List.nodup_singleton n, fun a ha b hb => by
        rw [List.mem_singleton.mp hb]
        exact fun e => fresh n rfl (e ▸ ha)⟩
  start := List.mem_append_left _ h.start
  placed := fun n hn => by
    obtain ⟨x, hx⟩ := mem_names.mp (h.placed n hn)
    exact mem_names.mpr ⟨x, List.mem_append_left _ hx⟩
  start_placed := h.start_placed

theorem addUnnamed (h : d.Sound) : (d.addState none).Sound :=
  h.addState fun _ hn => by cases hn

/-- Only the states and the placed labels count. -/
theorem of_eq (h : d.Sound) (states : e.states = d.states) (placed : e.placed = d.placed) :
    e.Sound := by
  have names : e.names = d.names := by rw [Draft.names, states, Draft.names]
  refine ⟨?_, names ▸ h.names, states ▸ h.start, ?_, placed ▸ h.start_placed⟩
  · rw [states]
    exact h.ids
  · rw [placed, names]
    exact h.placed

theorem connect (h : d.Sound) (t : Transition) : (d.connect t).Sound :=
  h.of_eq rfl rfl

theorem moveTo (h : d.Sound) (c : Option StateId) : (d.moveTo c).Sound :=
  h.of_eq rfl rfl

theorem step (h : d.Sound) (x : StateId) (label : Label) : (d.step x label).Sound :=
  (h.addUnnamed.connect _).moveTo _

/-- After a step the path ends at no state that was fixed. -/
theorem away_step (h : d.Sound) {label : Label} (hy : d.Fixed y) :
    (d.step x label).current ≠ some y := fun hc =>
  h.not_fixed_nextState (Option.some.inj hc ▸ hy)

theorem reserve (h : d.Sound) (n : String) : (d.reserve n).2.Sound := by
  unfold Draft.reserve
  split
  · exact h
  · rename_i hn
    refine h.addState fun m hm => ?_
    rw [← Option.some.inj hm]
    exact stateNamed?_eq_none_iff.mp hn

end Sound

/-- Reserving a name leaves all but the states alone, and adds at most the state of that name. -/
theorem reserve_cases (d : Draft) (n : String) :
    ⟨(d.reserve n).1, some n⟩ ∈ d.states ∧ (d.reserve n).2 = d ∨
      n ∉ d.names ∧ (d.reserve n).1 = d.nextState ∧ (d.reserve n).2 = d.addState (some n) := by
  unfold reserve
  cases hn : d.stateNamed? n with
  | none => exact Or.inr ⟨stateNamed?_eq_none_iff.mp hn, rfl, rfl⟩
  | some x => exact Or.inl ⟨mem_of_stateNamed? hn, rfl⟩

theorem mem_reserve (d : Draft) (n : String) :
    ⟨(d.reserve n).1, some n⟩ ∈ (d.reserve n).2.states := by
  rcases reserve_cases d n with ⟨hs, he⟩ | ⟨-, hx, he⟩
  · rwa [he]
  · rw [he, hx]
    exact List.mem_append_right _ (List.mem_singleton_self _)

theorem mem_names_reserve_iff {m : String} :
    m ∈ (d.reserve n).2.names ↔ m ∈ d.names ∨ m = n := by
  rcases reserve_cases d n with ⟨hs, he⟩ | ⟨-, -, he⟩
  · rw [he]
    refine ⟨Or.inl, ?_⟩
    rintro (h | rfl)
    · exact h
    · exact mem_names.mpr ⟨_, hs⟩
  · rw [he, names_addState_some, List.mem_append, List.mem_singleton]

theorem place_eq_ok_iff : d.place n = .ok (x, e) ↔
    n ∉ d.placed ∧ x = (d.reserve n).1 ∧
      e = { (d.reserve n).2 with placed := (d.reserve n).2.placed ++ [n] } := by
  unfold place
  split
  · rename_i hn
    simp [hn]
  · rename_i hn
    simp [hn, eq_comm]

theorem states_reserve (d : Draft) (n : String) : d.states <+: (d.reserve n).2.states := by
  rcases reserve_cases d n with ⟨-, he⟩ | ⟨-, -, he⟩
  · exact ⟨[], by rw [he, List.append_nil]⟩
  · exact ⟨[⟨d.nextState, some n⟩], by rw [he, states_addState]⟩

/-- Reserving a name touches nothing but the states. -/
theorem reserve_eq (d : Draft) (n : String) :
    (d.reserve n).2 = { d with states := (d.reserve n).2.states } := by
  rcases reserve_cases d n with ⟨-, he⟩ | ⟨-, -, he⟩
  · rw [he]
  · rw [he]
    rfl

theorem Sound.place (h : d.Sound) (hp : d.place n = .ok (x, e)) : e.Sound := by
  obtain ⟨-, -, rfl⟩ := place_eq_ok_iff.mp hp
  have hr := h.reserve n
  refine ⟨hr.ids, hr.names, hr.start, fun m hm => ?_, List.mem_append_left _ hr.start_placed⟩
  rcases List.mem_append.mp hm with hm | hm
  · exact hr.placed m hm
  · rw [List.mem_singleton.mp hm]
    exact mem_names.mpr ⟨_, mem_reserve d n⟩

/-- Whether a jump has reserved it or not, the state of a label that is placed now was not fixed. -/
theorem Sound.not_fixed_of_place (h : d.Sound) (hp : d.place n = .ok (x, e)) : ¬d.Fixed x := by
  obtain ⟨hn, rfl, -⟩ := place_eq_ok_iff.mp hp
  rcases reserve_cases d n with ⟨hs, -⟩ | ⟨-, hx, -⟩
  · exact fun hf => hn (h.name_placed hf hs)
  · rw [hx]
    exact h.not_fixed_nextState

theorem fixed_of_place (hp : d.place n = .ok (x, e)) : e.Fixed x := by
  obtain ⟨-, rfl, rfl⟩ := place_eq_ok_iff.mp hp
  refine ⟨some n, mem_reserve d n, fun m hm => ?_⟩
  rw [← Option.some.inj hm]
  exact List.mem_append_right _ (List.mem_singleton_self n)

/-- A new state without a name is fixed, and no other state becomes so. -/
theorem fixed_addUnnamed_iff : (d.addState none).Fixed x ↔ x = d.nextState ∨ d.Fixed x := by
  constructor
  · rintro ⟨name, hs, hp⟩
    rcases List.mem_append.mp hs with hs | hs
    · exact Or.inr ⟨name, hs, hp⟩
    · exact Or.inl (congrArg State.id (List.mem_singleton.mp hs))
  · rintro (rfl | h)
    · exact fixed_nextState d
    · exact h.addState none

/-- Reserving a name fixes no state. -/
theorem Sound.fixed_reserve_iff (h : d.Sound) : (d.reserve n).2.Fixed x ↔ d.Fixed x := by
  rcases reserve_cases d n with ⟨-, he⟩ | ⟨hn, -, he⟩
  · rw [he]
  · rw [he]
    refine ⟨?_, fun hf => hf.addState _⟩
    rintro ⟨name, hs, hp⟩
    rcases List.mem_append.mp hs with hs | hs
    · exact ⟨name, hs, hp⟩
    · obtain ⟨-, rfl⟩ := State.mk.inj (List.mem_singleton.mp hs)
      exact absurd (h.placed n (hp n rfl)) hn

theorem placed_of_place (hp : d.place n = .ok (x, e)) : e.placed = d.placed ++ [n] := by
  obtain ⟨-, -, rfl⟩ := place_eq_ok_iff.mp hp
  rw [reserve_eq]

theorem mem_names_place_iff (hp : d.place n = .ok (x, e)) {m : String} :
    m ∈ e.names ↔ m ∈ d.names ∨ m = n := by
  obtain ⟨-, -, rfl⟩ := place_eq_ok_iff.mp hp
  exact mem_names_reserve_iff

/-- Placing a label fixes its state, and no other state becomes fixed. -/
theorem Sound.fixed_place_iff (h : d.Sound) (hp : d.place n = .ok (x, e)) {y : StateId} :
    e.Fixed y ↔ y = x ∨ d.Fixed y := by
  obtain ⟨-, rfl, rfl⟩ := place_eq_ok_iff.mp hp
  constructor
  · rintro ⟨name, hs, hpl⟩
    by_cases hn : name = some n
    · exact Or.inl ((h.reserve n).eq_of_name (hn ▸ hs) (mem_reserve d n))
    · refine Or.inr (h.fixed_reserve_iff.mp ⟨name, hs, fun m hm => ?_⟩)
      rcases List.mem_append.mp (hpl m hm) with hm' | hm'
      · exact hm'
      · exact absurd (List.mem_singleton.mp hm' ▸ hm) hn
  · rintro (rfl | hf)
    · exact fixed_of_place hp
    · obtain ⟨name, hs, hpl⟩ : (d.reserve n).2.Fixed y := h.fixed_reserve_iff.mpr hf
      exact ⟨name, hs, fun m hm => List.mem_append_left _ (hpl m hm)⟩

end Draft

end ProtocolGraph
