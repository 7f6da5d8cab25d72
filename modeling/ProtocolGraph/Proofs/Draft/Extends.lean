import ProtocolGraph.Proofs.Draft.Sound

/-!
# Drawing extends a draft

`Extends d e` says all that drawing statements into `d` can do, whether it ends well or fails half
way and leaves `e`:

* states, placed labels and transitions are only added, scopes and variables stay;
* a new transition leaves a state that is `Touched`: the path of `d` ended there, or the state was
  not fixed in `d` and is fixed now;
* the path ends at a touched state again, if anywhere.

`Statement.extends_extend` is the induction on statements; the operations on drafts are shown to
keep `Extends d` one by one. `Extends.outgoing_eq` is what later proofs use: where the path of `d`
did not end, a fixed state keeps its transitions.
-/

namespace ProtocolGraph

namespace Draft

/-- The transitions that leave a state, in their order. -/
def outgoing (d : Draft) (x : StateId) : List Transition :=
  d.transitions.filter (·.source == x)

/-- The path of `d` ended at the state, or the state has become fixed on the way to `e`. -/
def Touched (d e : Draft) (x : StateId) : Prop :=
  d.current = some x ∨ ¬d.Fixed x ∧ e.Fixed x

/-- The draft `e` has come of `d` by drawing. -/
structure Extends (d e : Draft) : Prop where
  sound : e.Sound
  states : d.states <+: e.states
  placed : d.placed <+: e.placed
  scopes : e.scopes = d.scopes
  vars : e.vars = d.vars
  transitions : ∃ ts, e.transitions = d.transitions ++ ts ∧ ∀ t ∈ ts, Touched d e t.source
  current : ∀ x, e.current = some x → Touched d e x

variable {d e f : Draft} {x : StateId} {n : String}

theorem Touched.mono (h : Touched d e x) (fixed : e.Fixed x → f.Fixed x) : Touched d f x :=
  h.imp_right fun ⟨hd, he⟩ => ⟨hd, fixed he⟩

theorem mem_outgoing {t : Transition} : t ∈ d.outgoing x ↔ t ∈ d.transitions ∧ t.source = x := by
  unfold outgoing
  rw [List.mem_filter, beq_iff_eq]

theorem outgoing_eq_nil_iff : d.outgoing x = [] ↔ ∀ t ∈ d.transitions, t.source ≠ x := by
  unfold outgoing
  simp only [List.filter_eq_nil_iff, beq_iff_eq, ne_eq]

theorem outgoing_connect (t : Transition) :
    (d.connect t).outgoing x = d.outgoing x ++ if t.source = x then [t] else [] := by
  unfold outgoing connect
  by_cases h : t.source = x <;> simp [h, List.filter_append]

theorem fixed_connectFrom {source : Option StateId} {target : StateId} {label : Label} :
    (d.connectFrom source target label).Fixed x ↔ d.Fixed x := by
  cases source <;> rfl

namespace Extends

theorem refl (h : d.Sound) : d.Extends d :=
  ⟨h, List.prefix_rfl, List.prefix_rfl, rfl, rfl, ⟨[], by simp, by simp⟩, fun _ hx => Or.inl hx⟩

theorem fixed (h : d.Extends e) (hx : d.Fixed x) : e.Fixed x :=
  hx.mono h.states.subset h.placed.subset

/-- What is touched after `e` was touched after `d`. -/
theorem touched (h : d.Extends e) (he : e.Extends f) (hx : Touched e f x) : Touched d f x := by
  rcases hx with hx | ⟨hx, hf⟩
  · exact (h.current x hx).mono he.fixed
  · exact Or.inr ⟨fun hd => hx (h.fixed hd), hf⟩

theorem trans (h : d.Extends e) (he : e.Extends f) : d.Extends f where
  sound := he.sound
  states := h.states.trans he.states
  placed := h.placed.trans he.placed
  scopes := he.scopes.trans h.scopes
  vars := he.vars.trans h.vars
  transitions := by
    obtain ⟨ts, hts, touched⟩ := h.transitions
    obtain ⟨us, hus, touched'⟩ := he.transitions
    refine ⟨ts ++ us, by rw [hus, hts, List.append_assoc], fun t ht => ?_⟩
    rcases List.mem_append.mp ht with ht | ht
    · exact (touched t ht).mono he.fixed
    · exact h.touched he (touched' t ht)
  current := fun x hx => h.touched he (he.current x hx)

/-- **The frame.** A fixed state where the path does not end keeps its transitions. -/
theorem outgoing_eq (h : d.Extends e) (hx : d.Fixed x) (away : d.current ≠ some x) :
    e.outgoing x = d.outgoing x := by
  obtain ⟨ts, hts, touched⟩ := h.transitions
  have none_left : ts.filter (·.source == x) = [] := by
    refine List.filter_eq_nil_iff.mpr fun t ht => ?_
    rw [beq_iff_eq]
    rintro rfl
    rcases touched t ht with hc | ⟨hn, -⟩
    · exact away hc
    · exact hn hx
  unfold outgoing
  rw [hts, List.filter_append, none_left, List.append_nil]

/-- The path does not come back to a fixed state where it does not end. -/
theorem away (h : d.Extends e) (hx : d.Fixed x) (away : d.current ≠ some x) :
    e.current ≠ some x := by
  intro hc
  rcases h.current x hc with hc | ⟨hn, -⟩
  · exact away hc
  · exact hn hx

/-! ## Operations -/

/-- More states and placed labels extend a draft further. -/
theorem enlarge (h : d.Extends e) (sound : f.Sound) (states : e.states <+: f.states)
    (placed : e.placed <+: f.placed)
    (rest : f = { e with states := f.states, placed := f.placed }) : d.Extends f := by
  have fixed : ∀ x, e.Fixed x → f.Fixed x := fun x hx => hx.mono states.subset placed.subset
  obtain ⟨ts, hts, touched⟩ := h.transitions
  refine ⟨sound, h.states.trans states, h.placed.trans placed, ?_, ?_, ⟨ts, ?_, ?_⟩, ?_⟩
  · rw [rest]
    exact h.scopes
  · rw [rest]
    exact h.vars
  · rw [rest]
    exact hts
  · exact fun t ht => (touched t ht).mono (fixed _)
  · intro x hx
    rw [rest] at hx
    exact (h.current x hx).mono (fixed x)

theorem addUnnamed (h : d.Extends e) : d.Extends (e.addState none) :=
  h.enlarge h.sound.addUnnamed (List.prefix_append _ _) List.prefix_rfl rfl

theorem reserve (h : d.Extends e) (n : String) : d.Extends (e.reserve n).2 := by
  have rest := reserve_eq e n
  have placed : (e.reserve n).2.placed = e.placed := by rw [rest]
  refine h.enlarge (h.sound.reserve n) (states_reserve e n) ?_ ?_
  · exact ⟨[], by rw [placed, List.append_nil]⟩
  · rw [placed]
    exact rest

theorem connect (h : d.Extends e) {t : Transition} (ht : Touched d e t.source) :
    d.Extends (e.connect t) := by
  obtain ⟨ts, hts, touched⟩ := h.transitions
  refine ⟨h.sound.connect t, h.states, h.placed, h.scopes, h.vars, ⟨ts ++ [t], ?_, fun u hu => ?_⟩,
    h.current⟩
  · rw [Draft.connect, hts, List.append_assoc]
  · rcases List.mem_append.mp hu with hu | hu
    · exact touched u hu
    · exact List.mem_singleton.mp hu ▸ ht

theorem connectFrom (h : d.Extends e) {source : Option StateId}
    (hs : ∀ x, source = some x → Touched d e x) (target : StateId) (label : Label) :
    d.Extends (e.connectFrom source target label) := by
  cases source with
  | none => exact h
  | some x => exact h.connect (hs x rfl)

theorem moveTo (h : d.Extends e) {c : Option StateId} (hc : ∀ x, c = some x → Touched d e x) :
    d.Extends (e.moveTo c) :=
  ⟨h.sound.moveTo c, h.states, h.placed, h.scopes, h.vars, h.transitions, hc⟩

/-- The next state, once it has been added, is touched. -/
theorem touched_nextState (h : d.Extends e) : Touched d (e.addState none) e.nextState :=
  Or.inr ⟨fun hd => h.sound.not_fixed_nextState (h.fixed hd), fixed_nextState e⟩

theorem step (h : d.Extends e) (hx : Touched d e x) (label : Label) :
    d.Extends (e.step x label) := by
  have drawn : d.Extends ((e.addState none).connect ⟨x, e.nextState, label⟩) :=
    h.addUnnamed.connect (hx.mono fun hf => hf.addState none)
  refine drawn.moveTo fun y hy => ?_
  rw [← Option.some.inj hy]
  exact h.touched_nextState

theorem join (h : d.Extends e) {a b : Option StateId} (ha : ∀ x, a = some x → Touched d e x)
    (hb : ∀ x, b = some x → Touched d e x) : d.Extends (e.join a b) := by
  unfold Draft.join
  split
  · exact h.moveTo fun _ hc => by cases hc
  · have ha' : ∀ x, a = some x → Touched d (e.addState none) x := fun x hx =>
      (ha x hx).mono fun hf => hf.addState none
    have first := h.addUnnamed.connectFrom ha' e.nextState (.leaving "ifend")
    have hb' : ∀ x, b = some x →
        Touched d ((e.addState none).connectFrom a e.nextState (.leaving "ifend")) x := fun x hx =>
      (hb x hx).mono fun hf => fixed_connectFrom.mpr (hf.addState none)
    have second := first.connectFrom hb' e.nextState (.leaving "elseend")
    refine second.moveTo fun y hy => ?_
    rw [← Option.some.inj hy]
    exact h.touched_nextState.mono fun hf => fixed_connectFrom.mpr (fixed_connectFrom.mpr hf)

theorem place (h : d.Extends e) (hp : e.place n = .ok (x, f)) : d.Extends f := by
  have sound := h.sound.place hp
  obtain ⟨-, -, rfl⟩ := place_eq_ok_iff.mp hp
  exact (h.reserve n).enlarge sound List.prefix_rfl (List.prefix_append _ _) rfl

theorem touched_of_place (h : d.Extends e) (hp : e.place n = .ok (x, f)) : Touched d f x :=
  Or.inr ⟨fun hd => h.sound.not_fixed_of_place hp (h.fixed hd), fixed_of_place hp⟩

theorem placeHere (h : d.Extends e) (n : String) : d.Extends (e.placeHere n).draft := by
  unfold Draft.placeHere
  split
  · exact h
  · cases hp : e.place n with
    | error fault => exact h
    | ok r =>
      obtain ⟨x, f⟩ := r
      have hf := h.place hp
      have hx := h.touched_of_place hp
      have ends : ∀ y, e.current = some y → Touched d f y := fun y hy =>
        (h.current y hy).mono ((Extends.refl h.sound).place hp).fixed
      refine (hf.connectFrom ends x {}).moveTo fun y hy => ?_
      rw [← Option.some.inj hy]
      exact hx.mono fixed_connectFrom.mpr

theorem jump (h : d.Extends e) (hx : Touched d e x) : d.Extends (e.jump x n) :=
  ((h.reserve n).connect (hx.mono ((Extends.refl h.sound).reserve n).fixed)).moveTo
    fun _ hc => by cases hc

end Extends

end Draft

namespace Statement

open Draft

/-- Work from the end of the path extends a draft if it does where there is such an end. -/
theorem extends_fromHere {d : Draft} (h : d.Sound) {name : String} {work : StateId → Attempt}
    (hw : ∀ x, d.current = some x → d.Extends (work x).draft) :
    d.Extends (d.fromHere name work).draft := by
  unfold fromHere
  split
  · exact Extends.refl h
  · rename_i x hx
    exact hw x hx

/-- Going on after an attempt extends a draft if the attempt does and what follows it does. -/
theorem extends_andThen {d : Draft} {a : Attempt} {next : Draft → Attempt}
    (ha : d.Extends a.draft) (hn : d.Extends (next a.draft).draft) :
    d.Extends (a.andThen next).draft := by
  unfold Attempt.andThen
  split
  · exact hn
  · exact ha

/-- **Drawing a statement extends the draft**, whether it fails or not. -/
theorem extends_extend (s : Statement) : ∀ {d : Draft}, d.Sound → d.Extends (s.extend d).draft := by
  induction s with
  | label name => exact fun h => (Extends.refl h).placeHere name
  | send message valuation =>
    exact fun h => extends_fromHere h fun x hx => (Extends.refl h).step (Or.inl hx) _
  | receive message =>
    exact fun h => extends_fromHere h fun x hx => (Extends.refl h).step (Or.inl hx) _
  | jump target =>
    exact fun h => extends_fromHere h fun x hx => (Extends.refl h).jump (Or.inl hx)
  | branch guard consequent ih =>
    intro d h
    refine extends_fromHere h fun x hx => ?_
    have entered : d.Extends (d.step x (.entering guard)) := (Extends.refl h).step (Or.inl hx) _
    have drawn := entered.trans (ih entered.sound)
    exact extends_andThen drawn (drawn.join drawn.current fun _ hc => by cases hc)
  | branchElse guard consequent alternative ihc iha =>
    intro d h
    refine extends_fromHere h fun x hx => ?_
    have entered : d.Extends (d.step x (.entering guard)) := (Extends.refl h).step (Or.inl hx) _
    have drawn := entered.trans (ihc entered.sound)
    have passed := drawn.step (Or.inl hx) (.passing guard)
    have both := passed.trans (iha passed.sound)
    refine extends_andThen drawn (extends_andThen both (both.join (fun y hy => ?_) both.current))
    exact (drawn.current y hy).mono fun hf => (iha passed.sound).fixed (hf.addState none)
  | misread form cause => exact fun h => extends_fromHere h fun _ _ => Extends.refl h
  | foreign cause => exact fun h => Extends.refl h

end Statement

end ProtocolGraph
