import Mathlib.Data.List.Forall2
import Mathlib.Data.Set.Function
import ProtocolGraph.Proofs.Draft.Move

/-!
# Drafts that are alike up to numbers

Two drafts may draw the same graph and yet give its states different numbers, because one of them
has created named states earlier than the other. States of the two are `Twins` when they have one
name, or when none of them has a name and both were created at the same turn among those without
one.

* Twins stay twins while states are added (`Twins.mono`), and no state has two
  (`Sound.twin_unique`, `Sound.twin_unique'`).
* `Alike d e`: the transitions of the drafts go one by one between twins and say the same, and
  their paths end at twins. The second draft may have more named states.
* Every operation that is carried out on both, at twins, keeps them alike (`Alike.step`,
  `Alike.join` and so on), and so does reserving a name whose state the second draft has already
  (`Alike.reserve`).
* **`Alike.exists_renumbering`**: alike drafts with the same names are equal up to a one-to-one
  renumbering of their states.
-/

namespace ProtocolGraph

/-- The numbers of the states without a name, in the order of their creation. -/
def unnamed (states : List State) : List StateId :=
  (states.filter (·.name.isNone)).map State.id

/-- The states have the same name, or were created at the same turn among those without one. -/
inductive Twins (ss us : List State) : StateId → StateId → Prop
  | named {n x y} (left : ⟨x, some n⟩ ∈ ss) (right : ⟨y, some n⟩ ∈ us) : Twins ss us x y
  | unnamed {i : Nat} {x y} (left : (unnamed ss)[i]? = some x)
      (right : (unnamed us)[i]? = some y) : Twins ss us x y

/-- The transitions go between twins and say the same. -/
structure TwinTransitions (ss us : List State) (t u : Transition) : Prop where
  source : Twins ss us t.source u.source
  target : Twins ss us t.target u.target
  label : t.label = u.label

/-- The transition with other numbers for its ends. -/
def Transition.renumber (f : StateId → StateId) (t : Transition) : Transition :=
  ⟨f t.source, f t.target, t.label⟩

section States

variable {ss us ss' us' : List State} {x y : StateId} {n : String} {a b : Option StateId}
  {t u : Transition}

theorem mem_unnamed : x ∈ unnamed ss ↔ ⟨x, none⟩ ∈ ss := by
  unfold unnamed
  rw [List.mem_map]
  constructor
  · rintro ⟨⟨x, name⟩, hs, rfl⟩
    obtain ⟨hs, hname⟩ := List.mem_filter.mp hs
    obtain rfl : name = none := Option.isNone_iff_eq_none.mp hname
    exact hs
  · intro hs
    exact ⟨_, List.mem_filter.mpr ⟨hs, rfl⟩, rfl⟩

theorem unnamed_append : unnamed (ss ++ us) = unnamed ss ++ unnamed us := by
  simp [unnamed, List.filter_append]

/-- The turn of a state without a name does not change when states are added. -/
theorem unnamed_mono (states : ss <+: ss') {i : Nat} (h : (unnamed ss)[i]? = some x) :
    (unnamed ss')[i]? = some x := by
  obtain ⟨more, rfl⟩ := states
  obtain ⟨hi, -⟩ := List.getElem?_eq_some_iff.mp h
  rwa [unnamed_append, List.getElem?_append_left hi]

namespace Twins

theorem symm (h : Twins ss us x y) : Twins us ss y x := by
  cases h with
  | named left right => exact .named right left
  | unnamed left right => exact .unnamed right left

theorem exists_left (h : Twins ss us x y) : ∃ s ∈ ss, s.id = x := by
  cases h with
  | named left _ => exact ⟨_, left, rfl⟩
  | unnamed left _ => exact ⟨_, mem_unnamed.mp (List.mem_of_getElem? left), rfl⟩

/-- Twins stay twins while states are added. -/
theorem mono (h : Twins ss us x y) (left : ss <+: ss') (right : us <+: us') :
    Twins ss' us' x y := by
  cases h with
  | named hx hy => exact .named (left.subset hx) (right.subset hy)
  | unnamed hx hy => exact .unnamed (unnamed_mono left hx) (unnamed_mono right hy)

theorem option_mono (h : Option.Rel (Twins ss us) a b) (left : ss <+: ss') (right : us <+: us') :
    Option.Rel (Twins ss' us') a b := by
  cases h with
  | none => exact .none
  | some h => exact .some (h.mono left right)

theorem transition {z w : StateId} (source : Twins ss us x y) (target : Twins ss us z w)
    (label : Label) : TwinTransitions ss us ⟨x, z, label⟩ ⟨y, w, label⟩ :=
  ⟨source, target, rfl⟩

end Twins

/-- A state has a twin if its name occurs among the others, and if there are as many without a
name. -/
theorem exists_twins (names : ∀ n ∈ ss.filterMap State.name, n ∈ us.filterMap State.name)
    (length : (unnamed ss).length = (unnamed us).length) (hx : ∃ s ∈ ss, s.id = x) :
    ∃ y, Twins ss us x y := by
  obtain ⟨⟨x, name⟩, hs, rfl⟩ := hx
  cases name with
  | some n =>
    obtain ⟨⟨y, _⟩, hy, rfl⟩ :=
      List.mem_filterMap.mp (names n (List.mem_filterMap.mpr ⟨_, hs, rfl⟩))
    exact ⟨y, .named hs hy⟩
  | none =>
    obtain ⟨i, hi, hx⟩ := List.getElem_of_mem (mem_unnamed.mpr hs)
    have left : (unnamed ss)[i]? = some x := by rw [List.getElem?_eq_getElem hi, hx]
    rw [length] at hi
    exact ⟨_, .unnamed left (List.getElem?_eq_getElem hi)⟩

theorem TwinTransitions.mono (h : TwinTransitions ss us t u) (left : ss <+: ss')
    (right : us <+: us') : TwinTransitions ss' us' t u :=
  ⟨h.source.mono left right, h.target.mono left right, h.label⟩

end States

namespace Draft

/-- Transitions of the two drafts go between twins, and their paths end at twins. -/
structure Alike (d e : Draft) : Prop where
  sound : d.Sound
  sound' : e.Sound
  names : ∀ n ∈ d.names, n ∈ e.names
  unnamed : (unnamed d.states).length = (unnamed e.states).length
  placed : d.placed = e.placed
  transitions : List.Forall₂ (TwinTransitions d.states e.states) d.transitions e.transitions
  current : Option.Rel (Twins d.states e.states) d.current e.current

variable {d e d' e' : Draft} {x y z : StateId} {n : String} {a b a' b' : Option StateId}

/-! ## States that are twins -/

theorem Sound.nodup_unnamed (h : d.Sound) : (unnamed d.states).Nodup := by
  have ids : (d.states.map State.id).Nodup := h.ids ▸ List.nodup_range'
  exact ids.sublist (List.filter_sublist.map State.id)

/-- No state has two twins. -/
theorem Sound.twin_unique (hd : d.Sound) (he : e.Sound) (h : Twins d.states e.states x y)
    (h' : Twins d.states e.states x z) : y = z := by
  cases h with
  | named hx hy =>
    cases h' with
    | named hx' hz =>
      cases hd.eq_of_id hx hx' rfl
      exact he.eq_of_name hy hz
    | unnamed hx' _ => cases hd.eq_of_id hx (mem_unnamed.mp (List.mem_of_getElem? hx')) rfl
  | @unnamed i _ _ hx hy =>
    cases h' with
    | named hx' _ => cases hd.eq_of_id (mem_unnamed.mp (List.mem_of_getElem? hx)) hx' rfl
    | @unnamed j _ _ hx' hz =>
      obtain ⟨hi, -⟩ := List.getElem?_eq_some_iff.mp hx
      obtain rfl : i = j := (List.getElem?_inj hi hd.nodup_unnamed).mp (hx.trans hx'.symm)
      exact Option.some.inj (hy.symm.trans hz)

/-- No state is the twin of two. -/
theorem Sound.twin_unique' (hd : d.Sound) (he : e.Sound) (h : Twins d.states e.states x y)
    (h' : Twins d.states e.states z y) : x = z :=
  he.twin_unique hd h.symm h'.symm

theorem unnamed_addState_none :
    unnamed (d.addState none).states = unnamed d.states ++ [d.nextState] := by
  rw [states_addState, unnamed_append]
  rfl

theorem unnamed_reserve (d : Draft) (n : String) :
    unnamed (d.reserve n).2.states = unnamed d.states := by
  rcases reserve_cases d n with ⟨-, he⟩ | ⟨-, -, he⟩
  · rw [he]
  · rw [he, states_addState, unnamed_append]
    exact List.append_nil _

/-! ## Operations -/

theorem alike_empty : empty.Alike empty where
  sound := sound_empty
  sound' := sound_empty
  names := fun _ hn => hn
  unnamed := rfl
  placed := rfl
  transitions := .nil
  current := .some (.named sound_empty.start sound_empty.start)

namespace Alike

theorem twins_initial (h : d.Alike e) : Twins d.states e.states initial initial :=
  .named h.sound.start h.sound'.start

/-- The paths are at the initial state together. -/
theorem current_initial_iff (h : d.Alike e) :
    d.current = some initial ↔ e.current = some initial := by
  have current := h.current
  generalize d.current = a at current
  generalize e.current = b at current
  cases current with
  | none => exact ⟨nofun, nofun⟩
  | some twins =>
    rw [Option.some.injEq, Option.some.injEq]
    constructor
    · rintro rfl
      exact h.sound.twin_unique h.sound' twins h.twins_initial
    · rintro rfl
      exact h.sound.twin_unique' h.sound' twins h.twins_initial

/-- More states and placed labels leave drafts alike if they correspond. -/
theorem enlarge (h : d.Alike e) (sound : d'.Sound) (sound' : e'.Sound)
    (left : d.states <+: d'.states) (right : e.states <+: e'.states)
    (names : ∀ n ∈ d'.names, n ∈ e'.names)
    (unnamed : (ProtocolGraph.unnamed d'.states).length =
      (ProtocolGraph.unnamed e'.states).length)
    (placed : d'.placed = e'.placed)
    (rest : d' = { d with states := d'.states, placed := d'.placed })
    (rest' : e' = { e with states := e'.states, placed := e'.placed }) : d'.Alike e' where
  sound := sound
  sound' := sound'
  names := names
  unnamed := unnamed
  placed := placed
  transitions := by
    have kept : d'.transitions = d.transitions := by rw [rest]
    have kept' : e'.transitions = e.transitions := by rw [rest']
    rw [kept, kept']
    exact h.transitions.imp fun _ _ ht => ht.mono left right
  current := by
    have kept : d'.current = d.current := by rw [rest]
    have kept' : e'.current = e.current := by rw [rest']
    rw [kept, kept']
    exact Twins.option_mono h.current left right

theorem addUnnamed (h : d.Alike e) : (d.addState none).Alike (e.addState none) := by
  refine h.enlarge h.sound.addUnnamed h.sound'.addUnnamed (List.prefix_append _ _)
    (List.prefix_append _ _) ?_ ?_ h.placed rfl rfl
  · rw [names_addState_none, names_addState_none]
    exact h.names
  · rw [unnamed_addState_none, unnamed_addState_none, List.length_append, List.length_append,
      h.unnamed]
    rfl

/-- New states without a name are twins. -/
theorem twins_nextState (h : d.Alike e) :
    Twins (d.addState none).states (e.addState none).states d.nextState e.nextState := by
  refine .unnamed (i := (ProtocolGraph.unnamed d.states).length) ?_ ?_
  · rw [unnamed_addState_none, List.getElem?_concat_length]
  · rw [unnamed_addState_none, h.unnamed, List.getElem?_concat_length]

theorem connect (h : d.Alike e) {t u : Transition} (twins : TwinTransitions d.states e.states t u) :
    (d.connect t).Alike (e.connect u) :=
  ⟨h.sound.connect t, h.sound'.connect u, h.names, h.unnamed, h.placed,
    List.rel_append h.transitions (.cons twins .nil), h.current⟩

theorem connectFrom (h : d.Alike e) (source : Option.Rel (Twins d.states e.states) a b)
    (target : Twins d.states e.states x y) (label : Label) :
    (d.connectFrom a x label).Alike (e.connectFrom b y label) := by
  cases source with
  | none => exact h
  | some source => exact h.connect (source.transition target label)

theorem moveTo (h : d.Alike e) (current : Option.Rel (Twins d.states e.states) a b) :
    (d.moveTo a).Alike (e.moveTo b) :=
  ⟨h.sound.moveTo a, h.sound'.moveTo b, h.names, h.unnamed, h.placed, h.transitions, current⟩

theorem step (h : d.Alike e) (source : Twins d.states e.states x y) (label : Label) :
    (d.step x label).Alike (e.step y label) := by
  have source := source.mono (List.prefix_append _ [⟨d.nextState, none⟩])
    (List.prefix_append _ [⟨e.nextState, none⟩])
  have entered := h.addUnnamed.connect (source.transition h.twins_nextState label)
  exact entered.moveTo (.some h.twins_nextState)

theorem join (h : d.Alike e) (first : Option.Rel (Twins d.states e.states) a b)
    (second : Option.Rel (Twins d.states e.states) a' b') :
    (d.join a a').Alike (e.join b b') := by
  have next := h.twins_nextState
  have grown : ∀ {x y}, Twins d.states e.states x y →
      Twins (d.addState none).states (e.addState none).states x y := fun t =>
    t.mono (List.prefix_append _ _) (List.prefix_append _ _)
  cases first with
  | none =>
    cases second with
    | none => exact h.moveTo .none
    | some u => exact (h.addUnnamed.connect ((grown u).transition next _)).moveTo (.some next)
  | some t =>
    have one := h.addUnnamed.connect ((grown t).transition next (.leaving "ifend"))
    cases second with
    | none => exact one.moveTo (.some next)
    | some u => exact (one.connect ((grown u).transition next _)).moveTo (.some next)

/-- A name is reserved here, while its state there exists already. -/
theorem reserve (h : d.Alike e) (hn : n ∈ e.names) : (d.reserve n).2.Alike e := by
  have rest := reserve_eq d n
  have placed : (d.reserve n).2.placed = d.placed := by rw [rest]
  refine h.enlarge (h.sound.reserve n) h.sound' (states_reserve d n) List.prefix_rfl ?_ ?_
    (placed.trans h.placed) (by rw [placed]; exact rest) rfl
  · intro m hm
    rcases mem_names_reserve_iff.mp hm with hm | rfl
    · exact h.names m hm
    · exact hn
  · rw [unnamed_reserve]
    exact h.unnamed

/-- A name is reserved there that may not occur here. -/
theorem reserve_right (h : d.Alike e) (n : String) : d.Alike (e.reserve n).2 := by
  have rest := reserve_eq e n
  have placed : (e.reserve n).2.placed = e.placed := by rw [rest]
  refine h.enlarge h.sound (h.sound'.reserve n) List.prefix_rfl (states_reserve e n) ?_ ?_
    (h.placed.trans placed.symm) rfl (by rw [placed]; exact rest)
  · exact fun m hm => mem_names_reserve_iff.mpr (Or.inl (h.names m hm))
  · rw [unnamed_reserve]
    exact h.unnamed

theorem twins_reserve (hy : ⟨y, some n⟩ ∈ e.states) :
    Twins (d.reserve n).2.states e.states (d.reserve n).1 y :=
  .named (mem_reserve d n) hy

/-- The same label is placed in both. -/
theorem addPlaced (h : d.Alike e) (hn : n ∈ d.names) :
    Draft.Alike { d with placed := d.placed ++ [n] } { e with placed := e.placed ++ [n] } := by
  have placed : ∀ {f : Draft}, f.Sound → n ∈ f.names →
      Draft.Sound { f with placed := f.placed ++ [n] } := fun {f} hf hn =>
    ⟨hf.ids, hf.names, hf.start, fun m hm => (List.mem_append.mp hm).elim (hf.placed m)
      fun hm => List.mem_singleton.mp hm ▸ hn, List.mem_append_left _ hf.start_placed⟩
  exact ⟨placed h.sound hn, placed h.sound' (h.names n hn), h.names, h.unnamed,
    congrArg (· ++ [n]) h.placed, h.transitions, h.current⟩

/-! ## Renumbering -/

/-- Twins have the same name, or none. -/
theorem mem_of_twins (h : d.Alike e) {name : Option String} (hs : ⟨x, name⟩ ∈ d.states)
    (twins : Twins d.states e.states x y) : ⟨y, name⟩ ∈ e.states := by
  cases twins with
  | named hx hy =>
    cases h.sound.eq_of_id hs hx rfl
    exact hy
  | unnamed hx hy =>
    cases h.sound.eq_of_id hs (mem_unnamed.mp (List.mem_of_getElem? hx)) rfl
    exact mem_unnamed.mp (List.mem_of_getElem? hy)

/-- **Alike drafts with the same names** are equal up to a one-to-one renumbering of their states
that keeps names. -/
theorem exists_renumbering (h : d.Alike e) (onto : ∀ n ∈ e.names, n ∈ d.names) :
    ∃ f : StateId → StateId,
      Set.BijOn f {x | ∃ s ∈ d.states, s.id = x} {y | ∃ s ∈ e.states, s.id = y} ∧
      f initial = initial ∧ (∀ s ∈ d.states, ⟨f s.id, s.name⟩ ∈ e.states) ∧
      e.transitions = d.transitions.map (Transition.renumber f) ∧
      e.current = d.current.map f := by
  choose! f hf using fun x (hx : ∃ s ∈ d.states, s.id = x) => exists_twins h.names h.unnamed hx
  have eq_f : ∀ {x y}, Twins d.states e.states x y → y = f x := fun t =>
    h.sound.twin_unique h.sound' t (hf _ t.exists_left)
  refine ⟨f, ⟨?_, ?_, ?_⟩, (eq_f h.twins_initial).symm, ?_, ?_, ?_⟩
  · intro x hx
    exact (hf x hx).symm.exists_left
  · intro x hx z hz he
    exact h.sound.twin_unique' h.sound' (hf x hx) (he ▸ hf z hz)
  · intro y hy
    obtain ⟨x, t⟩ := exists_twins onto h.unnamed.symm hy
    exact ⟨x, t.symm.exists_left, (eq_f t.symm).symm⟩
  · intro s hs
    exact h.mem_of_twins hs (hf s.id ⟨s, hs, rfl⟩)
  · have transitions := h.transitions
    generalize d.transitions = ts at transitions
    generalize e.transitions = us at transitions
    induction transitions with
    | nil => rfl
    | @cons t u _ _ twins _ ih =>
      have head : u = t.renumber f := by
        obtain ⟨source, target, label⟩ := u
        rw [Transition.renumber, ← eq_f twins.source, ← eq_f twins.target, twins.label]
      rw [ih, head, List.map_cons]
  · have current := h.current
    generalize d.current = a at current
    generalize e.current = b at current
    cases current with
    | none => rfl
    | some t => exact congrArg some (eq_f t)

end Alike

end Draft

end ProtocolGraph
