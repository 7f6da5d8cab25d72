import ProtocolGraph.Proofs.Process.Outgoing
import ProtocolGraph.Proofs.Statement.Accepted
import ProtocolGraph.Proofs.Statement.Control

/-!
# The graph of a body does what the body does

A body and the graph that it draws do the same, step by step. The states of the graph that the path
goes through *show* what is left to do there (`Shows`): the transitions that leave the state are
those that the first thing left to do asks for, and they lead to states that show what is left then.
A state is known to show what follows only when the rest of the body has been drawn, so the
induction goes backwards: `Draws.shows` starts from what the finished graph shows behind a
statement. `Kept` says what must still be true of the finished graph.

* `matches_of_shows`: what a state shows is what may be done there.
* `DrawsAll.shows`: the path shows what the statements say, and so do the places behind labels.
* `DrawsAll.bisimilar`: there is a bisimulation that relates the initial state to the whole body,
  and each named state to what follows its label.
* **`bisimilar_of_extendAll`** is the result for nodes, in the terms of the body that they spell.
-/

namespace ProtocolGraph

namespace Draft

/-- The state shows what is left to do. At a jump nothing is asked of what stands behind it. -/
inductive Shows (d : Draft) : StateId → Control → Prop
  | stop {x} (left : d.outgoing x = []) : Shows d x []
  | send {x y message valuation k} (left : d.outgoing x = [⟨x, y, .sending message valuation⟩])
      (next : Shows d y k) : Shows d x (.statement (.send message valuation) :: k)
  | receive {x y message k} (left : d.outgoing x = [⟨x, y, .receiving message⟩])
      (next : Shows d y k) : Shows d x (.statement (.receive message) :: k)
  | label {x y name k} (left : d.outgoing x = [⟨x, y, {}⟩]) (next : Shows d y k) :
      Shows d x (.statement (.label name) :: k)
  | jump {x y target k} (left : d.outgoing x = [⟨x, y, {}⟩])
      (named : ⟨y, some target⟩ ∈ d.states) : Shows d x (.statement (.jump target) :: k)
  | branch {x y guard consequent k} (left : d.outgoing x = [⟨x, y, .entering guard⟩])
      (next : Shows d y (.statement consequent :: .mark "ifend" :: k)) :
      Shows d x (.statement (.branch guard consequent) :: k)
  | branchElse {x y z guard consequent alternative k}
      (left : d.outgoing x = [⟨x, y, .entering guard⟩, ⟨x, z, .passing guard⟩])
      (next : Shows d y (.statement consequent :: .mark "ifend" :: k))
      (otherwise : Shows d z (.statement alternative :: .mark "elseend" :: k)) :
      Shows d x (.statement (.branchElse guard consequent alternative) :: k)
  | mark {x y name k} (left : d.outgoing x = [⟨x, y, .leaving name⟩]) (next : Shows d y k) :
      Shows d x (.mark name :: k)

end Draft

namespace Statement

open Draft

variable {s : Statement} {body : List Statement} {d e f g : Draft} {x y : StateId} {n : String}
  {k k' : Control} {label : Label} {R : StateId → Control → Prop}

/-! ## What is shown is what may be done -/

/-- Only at a branch with two alternatives may more than one thing be done. -/
theorem Step.unique {p : Pending} {l : Label} {j : Control}
    (single : ∀ guard consequent alternative,
      p ≠ .statement (.branchElse guard consequent alternative))
    (h : Step body (p :: k) label k') (h' : Step body (p :: k) l j) : l = label ∧ j = k' := by
  cases h with
  | consequent | alternative => exact absurd rfl (single _ _ _)
  | _ =>
    cases h'
    exact ⟨rfl, rfl⟩

/-- The draft `g` has kept what was drawn between `d` and `e`: its states, and the transitions of
those where the path came by. -/
structure Kept (d e g : Draft) : Prop where
  states : e.states ⊆ g.states
  outgoing : ∀ y, Touched d e y → e.current ≠ some y → g.outgoing y = e.outgoing y

/-- What is touched on the way from a tidy draft is fixed at its end. -/
theorem fixed_of_touched (h : d.Tidy) (grown : d.Extends e) (hy : Touched d e y) : e.Fixed y := by
  rcases hy with hy | ⟨-, hy⟩
  · exact grown.fixed (h.current y hy)
  · exact hy

theorem Kept.head (h : d.Tidy) (first : d.Extends e) (second : e.Extends f) (kept : Kept d f g) :
    Kept d e g := by
  refine ⟨fun s hs => kept.states (second.states.subset hs), fun y hy away => ?_⟩
  have fixed := fixed_of_touched h first hy
  rw [kept.outgoing y (hy.mono second.fixed) (second.away fixed away)]
  exact second.outgoing_eq fixed away

theorem Kept.tail (first : d.Extends e) (second : e.Extends f) (kept : Kept d f g) : Kept e f g :=
  ⟨kept.states, fun y hy away => kept.outgoing y (first.touched second hy) away⟩

/-- What was drawn in the course of it is kept if it was not there before and stays as it is. -/
theorem Kept.within {b : Draft} (kept : Kept d f g) (states : e.states ⊆ f.states)
    (new : ∀ y, Touched b e y → ¬d.Fixed y ∧ f.Fixed y)
    (still : ∀ y, Touched b e y → e.current ≠ some y →
      f.current ≠ some y ∧ f.outgoing y = e.outgoing y) : Kept b e g := by
  refine ⟨fun s hs => kept.states (states hs), fun y hy away => ?_⟩
  obtain ⟨away', same⟩ := still y hy away
  rw [kept.outgoing y (Or.inr (new y hy)) away', same]

theorem not_fixed_of_touched_step (h : d.Sound) (hy : Touched (d.step x label) e y) :
    ¬d.Fixed y := by
  intro fixed
  rcases hy with hy | ⟨hn, -⟩
  · exact h.away_step fixed hy
  · exact hn (fixed.addState none)

/-- The state shows what a step from the end of the path draws. -/
theorem Kept.outgoing_step (h : d.Tidy) (here : d.current = some x)
    (kept : Kept d (d.step x label) g) : g.outgoing x = [⟨x, d.nextState, label⟩] := by
  rw [kept.outgoing x (Or.inl here) (h.sound.away_step (h.current x here))]
  exact h.outgoing_entered here (Extends.refl (h.sound.step x label))

/-! ## Where alternatives meet -/

theorem fixed_join {a b : Option StateId} (fixed : d.Fixed y) : (d.join a b).Fixed y :=
  fixed.mono (prefix_join a b d).subset (placed_join d a b ▸ List.Subset.refl _)

theorem away_join (h : d.Sound) {a b : Option StateId} (fixed : d.Fixed y) :
    (d.join a b).current ≠ some y := by
  intro hc
  rw [current_join hc] at fixed
  exact h.not_fixed_nextState fixed

/-- Where alternatives do not end, their meeting changes nothing. -/
theorem outgoing_join_of_ne {a b : Option StateId} (ha : a ≠ some y) (hb : b ≠ some y) :
    (d.join a b).outgoing y = d.outgoing y := by
  rw [outgoing_join, if_neg ha, if_neg hb, List.append_nil, List.append_nil]

/-- The end of an alternative shows its mark, and then what follows where the alternatives meet. -/
theorem Kept.shows_mark {a b : Option StateId} (h : d.Sound) (kept : Kept f (d.join a b) g)
    (new : ¬f.Fixed y) (fixed : d.Fixed y) (silent : d.outgoing y = [])
    (next : ∀ z, (d.join a b).current = some z → Shows g z k) :
    (a = some y → b ≠ some y → Shows g y (.mark "ifend" :: k)) ∧
      (a ≠ some y → b = some y → Shows g y (.mark "elseend" :: k)) := by
  have left := kept.outgoing y (Or.inr ⟨new, fixed_join fixed⟩) (away_join h fixed)
  rw [outgoing_join, silent, List.nil_append] at left
  have met : a = some y ∨ b = some y → (d.join a b).current = some d.nextState := by
    intro hy
    rw [join_eq]
    rintro ⟨rfl, rfl⟩
    cases hy <;> contradiction
  constructor
  · intro ha hb
    rw [if_pos ha, if_neg hb] at left
    exact .mark left (next _ (met (Or.inl ha)))
  · intro ha hb
    rw [if_neg ha, if_pos hb] at left
    exact .mark left (next _ (met (Or.inr hb)))

/-! ## Branches -/

section Branches

variable {label' : Label}

/-- With no alternative, what the consequent drew is kept. -/
theorem Kept.only (h : d.Tidy) (entered : (d.step x label).Tidy) (tidy : e.Tidy)
    (grown : (d.step x label).Extends e) (kept : Kept d (e.join e.current none) g) :
    Kept (d.step x label) e g := by
  refine kept.within (prefix_join _ _ _).subset (fun y hy => ?_) fun y hy away => ?_
  · exact ⟨not_fixed_of_touched_step h.sound hy, fixed_join (fixed_of_touched entered grown hy)⟩
  · exact ⟨away_join tidy.sound (fixed_of_touched entered grown hy),
      outgoing_join_of_ne away nofun⟩

/-- What the consequent drew is kept while the alternative is drawn, and when they meet. -/
theorem Kept.consequent (h : d.Tidy) (here : d.current = some x) (entered : (d.step x label).Tidy)
    (tidy : e.Tidy) (grown : (d.step x label).Extends e) (tidy' : f.Tidy)
    (grown' : (e.step x label').Extends f) (kept : Kept d (f.join e.current f.current) g) :
    Kept (d.step x label) e g := by
  have fixed : ∀ y, Touched (d.step x label) e y → (e.step x label').Fixed y := fun y hy =>
    (fixed_of_touched entered grown hy).addState none
  refine kept.within (fun s hs => ?_) (fun y hy => ?_) fun y hy away => ?_
  · exact (prefix_join _ _ _).subset (grown'.states.subset (List.mem_append_left _ hs))
  · exact ⟨not_fixed_of_touched_step h.sound hy, fixed_join (grown'.fixed (fixed y hy))⟩
  · have new := not_fixed_of_touched_step h.sound hy
    have other : x ≠ y := by
      rintro rfl
      exact new (h.current x here)
    have away' : (e.step x label').current ≠ some y :=
      tidy.sound.away_step (fixed_of_touched entered grown hy)
    refine ⟨away_join tidy'.sound (grown'.fixed (fixed y hy)), ?_⟩
    rw [outgoing_join_of_ne away (grown'.away (fixed y hy) away'),
      grown'.outgoing_eq (fixed y hy) away', Draft.outgoing_step, if_neg other, List.append_nil]

/-- What the alternative drew is kept when it meets the consequent. -/
theorem Kept.alternative (tidy : e.Tidy) (grown : (d.step x label).Extends e)
    (passed : (e.step x label').Tidy) (tidy' : f.Tidy) (grown' : (e.step x label').Extends f)
    (kept : Kept d (f.join e.current f.current) g) : Kept (e.step x label') f g := by
  refine kept.within (prefix_join _ _ _).subset (fun y hy => ?_) fun y hy away => ?_
  · have new := not_fixed_of_touched_step tidy.sound hy
    exact ⟨fun hd => new (grown.fixed (hd.addState none)),
      fixed_join (fixed_of_touched passed grown' hy)⟩
  · have apart : e.current ≠ some y := fun hc =>
      not_fixed_of_touched_step tidy.sound hy (tidy.current y hc)
    exact ⟨away_join tidy'.sound (fixed_of_touched passed grown' hy),
      outgoing_join_of_ne apart away⟩

/-- The branch itself is left into both alternatives, in their order. -/
theorem Kept.outgoing_branched (h : d.Tidy) (here : d.current = some x) (tidy : e.Tidy)
    (grown : (d.step x label).Extends e) (tidy' : f.Tidy) (grown' : (e.step x label').Extends f)
    (kept : Kept d (f.join e.current f.current) g) :
    g.outgoing x = [⟨x, d.nextState, label⟩, ⟨x, e.nextState, label'⟩] := by
  have waiting := h.outgoing_entered here grown
  obtain ⟨fixed, away⟩ := tidy.of_outgoing (waiting ▸ List.cons_ne_nil _ _)
  have fixed' : (e.step x label').Fixed x := fixed.addState none
  have away' : (e.step x label').current ≠ some x := tidy.sound.away_step fixed
  rw [kept.outgoing x (Or.inl here) (away_join tidy'.sound (grown'.fixed fixed')),
    outgoing_join_of_ne away (grown'.away fixed' away'), grown'.outgoing_eq fixed' away',
    Draft.outgoing_step, waiting, if_pos rfl]
  rfl

end Branches

/-! ## What the path shows -/

/-- The statement is shown in the finished graph, and so is what follows the labels in it. -/
structure ShownIn (g d : Draft) (s : Statement) (k : Control) : Prop where
  here : ∀ x, d.current = some x → Shows g x (.statement s :: k)
  behind : ∀ n k', s.after? n k = some k' → ∃ y, ⟨y, some n⟩ ∈ g.states ∧ Shows g y k'

theorem shownIn_of_here (silent : ∀ n, s.after? n k = none) (here : d.current = some x)
    (shown : Shows g x (.statement s :: k)) : ShownIn g d s k := by
  refine ⟨fun y hy => ?_, fun n k' h => ?_⟩
  · rwa [← Option.some.inj (here.symm.trans hy)]
  · rw [silent n] at h
    cases h

/-- **The path shows the statement that it draws** and what follows the labels in it, if its end
shows what follows the statement. -/
theorem Draws.shows (drawn : Draws s d e) : ∀ {g k}, d.Tidy → Kept d e g →
    (∀ y, e.current = some y → Shows g y k) → ShownIn g d s k := by
  induction drawn with
  | @label d f name x placed =>
    intro g k h kept next
    have new := h.sound.not_fixed_of_place placed
    constructor
    · intro y here
      have away : ((f.connectFrom d.current x {}).moveTo (some x)).current ≠ some y := by
        intro hc
        rw [Option.some.inj hc] at new
        exact new (h.current y here)
      have left := kept.outgoing y (Or.inl here) away
      rw [outgoing_place placed, h.outgoing_current here, if_pos here] at left
      exact .label left (next x rfl)
    · intro n k' hk
      rw [after?] at hk
      split at hk
      · rename_i hn
        cases hk
        have named : ⟨x, some name⟩ ∈ f.states := by
          obtain ⟨-, rfl, rfl⟩ := place_eq_ok_iff.mp placed
          exact mem_reserve d name
        rw [hn, ← states_connectFrom d.current x {} f] at named
        exact ⟨x, kept.states named, next x rfl⟩
      · cases hk
  | send here =>
    intro g k h kept next
    exact shownIn_of_here (fun _ => rfl) here (.send (kept.outgoing_step h here) (next _ rfl))
  | receive here =>
    intro g k h kept next
    exact shownIn_of_here (fun _ => rfl) here (.receive (kept.outgoing_step h here) (next _ rfl))
  | @jump d x target here =>
    intro g k h kept _
    have left := kept.outgoing x (Or.inl here) (Option.some_ne_none x).symm
    rw [outgoing_jump, h.outgoing_current here, if_pos rfl] at left
    exact shownIn_of_here (fun _ => rfl) here (.jump left (kept.states (mem_reserve d target)))
  | @branch d e x guard consequent here inner ih =>
    intro g k h kept next
    have entered := h.step (h.current x here) (.entering guard)
    have grown := inner.grown entered.sound
    have tidy := inner.tidy entered
    have inside := kept.only h entered tidy grown
    have shown := ih entered inside (k := .mark "ifend" :: k) fun y hy => by
      have new := not_fixed_of_touched_step h.sound (grown.current y hy)
      exact (kept.shows_mark tidy.sound new (tidy.current y hy) (tidy.outgoing_current hy) next).1
        hy (Option.some_ne_none y).symm
    have waiting := h.outgoing_entered here grown
    obtain ⟨fixed, away⟩ := tidy.of_outgoing (waiting ▸ List.cons_ne_nil _ _)
    have left := kept.outgoing x (Or.inl here) (away_join tidy.sound fixed)
    rw [outgoing_join_of_ne away (Option.some_ne_none x).symm, waiting] at left
    refine ⟨fun y hy => ?_, shown.behind⟩
    rw [← Option.some.inj (here.symm.trans hy)]
    exact .branch left (shown.here _ rfl)
  | @branchElse d e f x guard consequent alternative here first second ihf ihs =>
    intro g k h kept next
    have entered := h.step (h.current x here) (.entering guard)
    have grown := first.grown entered.sound
    have tidy := first.tidy entered
    have waiting := h.outgoing_entered here grown
    have left : e.outgoing x ≠ [] := waiting ▸ List.cons_ne_nil _ _
    have passed := tidy.step (tidy.of_outgoing left).1 (.passing guard)
    have grown' := second.grown passed.sound
    have tidy' := second.tidy passed
    -- the ends of both alternatives show their marks
    have shown := ihf entered (kept.consequent h here entered tidy grown tidy' grown')
      (k := .mark "ifend" :: k) fun y hy => by
        have new := not_fixed_of_touched_step h.sound (grown.current y hy)
        obtain ⟨fixed, apart, silent⟩ := tidy.end_kept hy left grown'
        exact (kept.shows_mark tidy'.sound new fixed silent next).1 hy apart
    have shown' := ihs passed (kept.alternative tidy grown passed tidy' grown')
      (k := .mark "elseend" :: k) fun y hy => by
        have new := not_fixed_of_touched_step tidy.sound (grown'.current y hy)
        have new' : ¬d.Fixed y := fun hd => new (grown.fixed (hd.addState none))
        have apart : e.current ≠ some y := fun hc => new (tidy.current y hc)
        exact (kept.shows_mark tidy'.sound new' (tidy'.current y hy) (tidy'.outgoing_current hy)
          next).2 apart hy
    refine ⟨fun y hy => ?_, fun n k' hk => ?_⟩
    · rw [← Option.some.inj (here.symm.trans hy)]
      exact .branchElse (kept.outgoing_branched h here tidy grown tidy' grown')
        (shown.here _ rfl) (shown'.here _ rfl)
    · rw [after?, Option.or_eq_some_iff] at hk
      rcases hk with hk | ⟨-, hk⟩
      · exact shown.behind n k' hk
      · exact shown'.behind n k' hk

/-- **The path shows the statements that it draws**, and the places behind labels show what follows
them. -/
theorem DrawsAll.shows (drawn : DrawsAll body d e) : ∀ {g}, d.Tidy → Kept d e g →
    (∀ y, e.current = some y → Shows g y []) →
      (∀ x, d.current = some x → Shows g x (body.map .statement)) ∧
        ∀ n k, afterIn? n body = some k → ∃ y, ⟨y, some n⟩ ∈ g.states ∧ Shows g y k := by
  induction drawn with
  | nil => exact fun _ _ next => ⟨next, fun n k hk => by cases hk⟩
  | @cons d e f s rest head tail ih =>
    intro g h kept next
    have first := head.grown h.sound
    have tidy := head.tidy h
    have second := tail.grown tidy.sound
    obtain ⟨shown, behind⟩ := ih tidy (kept.tail first second) next
    have shown_head := head.shows h (kept.head h first second) shown
    refine ⟨shown_head.here, fun n k hk => ?_⟩
    rw [afterIn?, Option.or_eq_some_iff] at hk
    rcases hk with hk | ⟨-, hk⟩
    · exact shown_head.behind n k hk
    · exact behind n k hk

end Statement

end ProtocolGraph
