import ProtocolGraph.Proofs.Declaration.Grammar

/-!
# What leaves a state

The transitions that leave a state of a drawn graph never compete: at most one is taken without a
guard, and two ask for a guard and for its negation.

* `Determined ts`: the four shapes that the transitions of one state can have.
* `determined_of_move`: every move keeps all states determined, so every body does
  (`determined_extendAll`).
* `Draws.leftBehind`: the path goes on from every state that it reaches, but for the one where it
  ends; reserved states are not reached. Hence the dead ends are known from the body
  (`outgoing_eq_nil_iff_of_extendAll`).
* **`Model.outgoing_structured`**: both for every process of a model.
-/

namespace ProtocolGraph

/-- The transitions of one state do not compete. -/
inductive Determined : List Transition → Prop
  /-- Nothing leaves the state. -/
  | stop : Determined []
  /-- One transition leaves it, whatever holds. -/
  | always {t} (unguarded : t.label.guard = none) : Determined [t]
  /-- It is left into a branch, if the guard holds. -/
  | entered {t g} (guard : t.label.guard = some g) (action : t.label.action = some (.send "then")) :
      Determined [t]
  /-- It is left into a branch if the guard holds, and past it if it does not. -/
  | branched {t u g} (guard : t.label.guard = some g)
      (action : t.label.action = some (.send "then")) (otherwise : u.label.guard = some g.negate)
      (silent : u.label.action = none) : Determined [t, u]

namespace Draft

variable {d e : Draft} {x y : StateId} {n : String}

theorem fixed_of_join {a b : Option StateId} (fixed : (d.join a b).Fixed y)
    (away : (d.join a b).current ≠ some y) : d.Fixed y := by
  by_cases none : a = none ∧ b = none
  · obtain ⟨rfl, rfl⟩ := none
    exact fixed
  · rw [join_eq none] at fixed away
    have fixed : (d.addState Option.none).Fixed y := fixed
    rcases fixed_addUnnamed_iff.mp fixed with rfl | fixed
    · exact absurd rfl away
    · exact fixed

/-! ## Determined states -/

theorem determined_append {p : Prop} [Decidable p] {t : Transition}
    (hd : Determined (d.outgoing y)) (ht : p → Determined (d.outgoing y ++ [t])) :
    Determined (d.outgoing y ++ if p then [t] else []) := by
  split
  · rename_i hp
    exact ht hp
  · rwa [List.append_nil]

/-- **A move keeps every state determined.** -/
theorem determined_of_move (h : d.Tidy) (move : Move d e) (hd : ∀ x, Determined (d.outgoing x)) :
    ∀ y, Determined (e.outgoing y) := by
  intro y
  cases move with
  | message here action unguarded =>
    rw [outgoing_step]
    refine determined_append (hd y) ?_
    rintro rfl
    rw [h.outgoing_current here]
    exact .always unguarded
  | enter guard here =>
    rw [outgoing_step]
    refine determined_append (hd y) ?_
    rintro rfl
    rw [h.outgoing_current here]
    exact .entered rfl rfl
  | pass entered =>
    rw [outgoing_step]
    refine determined_append (hd y) ?_
    rintro rfl
    rw [entered]
    exact .branched rfl rfl rfl rfl
  | @join a b apart ends =>
    rw [outgoing_join]
    by_cases ha : a = some y
    · rw [(ends y (Or.inl ha)).2, if_pos ha, if_neg (apart y ha)]
      exact .always rfl
    · rw [if_neg ha, List.nil_append]
      refine determined_append (hd y) fun hb => ?_
      rw [(ends y (Or.inr hb)).2]
      exact .always rfl
  | place placed =>
    rw [outgoing_place placed]
    refine determined_append (hd y) fun here => ?_
    rw [h.outgoing_current here]
    exact .always rfl
  | jump target here =>
    rw [outgoing_jump]
    refine determined_append (hd y) ?_
    rintro rfl
    rw [h.outgoing_current here]
    exact .always rfl

/-! ## States left behind -/

/-- The path has gone on from every fixed state, but for where it ends and where it waits. -/
def LeftBehind (d : Draft) (waits : StateId → Prop) : Prop :=
  ∀ x, d.Fixed x → d.current ≠ some x → ¬waits x → d.outgoing x ≠ []

variable {waits : StateId → Prop}

theorem append_if_ne_nil {p : Prop} [Decidable p] {ts : List Transition} {t : Transition}
    (h : ¬p → ts ≠ []) : (ts ++ if p then [t] else []) ≠ [] := by
  split
  · simp
  · rename_i hp
    rw [List.append_nil]
    exact h hp

namespace LeftBehind

theorem mono {waits' : StateId → Prop} (hd : d.LeftBehind waits)
    (hw : ∀ y, waits y → waits' y) : d.LeftBehind waits' :=
  fun y fixed away free => hd y fixed away fun h => free (hw y h)

theorem step (hd : d.LeftBehind waits) (ends : ∀ y, d.current = some y → x = y ∨ waits y)
    (label : Label) : (d.step x label).LeftBehind waits := by
  intro y fixed away free
  rw [outgoing_step]
  refine append_if_ne_nil fun hy => ?_
  rcases fixed_addUnnamed_iff.mp fixed with rfl | fixed
  · exact absurd rfl away
  · exact hd y fixed (fun hc => (ends y hc).elim hy free) free

theorem join {a b : Option StateId}
    (hd : d.LeftBehind fun y => waits y ∨ a = some y ∨ b = some y)
    (ends : ∀ y, d.current = some y → a = some y ∨ b = some y) :
    (d.join a b).LeftBehind waits := by
  intro y fixed away free
  rw [outgoing_join, ← List.append_assoc]
  refine append_if_ne_nil fun hb => append_if_ne_nil fun ha => ?_
  refine hd y (fixed_of_join fixed away) (fun hc => (ends y hc).elim ha hb) ?_
  rintro (hw | hw | hw)
  · exact free hw
  · exact ha hw
  · exact hb hw

theorem place (h : d.Sound) (hd : d.LeftBehind waits) (placed : d.place n = .ok (x, e)) :
    ((e.connectFrom d.current x {}).moveTo (some x)).LeftBehind waits := by
  intro y fixed away free
  rw [outgoing_place placed]
  refine append_if_ne_nil fun hy => ?_
  have fixed : e.Fixed y := fixed_connectFrom.mp fixed
  rcases (h.fixed_place_iff placed).mp fixed with rfl | fixed
  · exact absurd rfl away
  · exact hd y fixed hy free

theorem jump (h : d.Sound) (hd : d.LeftBehind waits) (here : d.current = some x) (n : String) :
    (d.jump x n).LeftBehind waits := by
  intro y fixed _ free
  rw [outgoing_jump]
  refine append_if_ne_nil fun hy => ?_
  have fixed : (d.reserve n).2.Fixed y := fixed
  refine hd y (h.fixed_reserve_iff.mp fixed) (fun hc => hy ?_) free
  exact Option.some.inj (here.symm.trans hc)

end LeftBehind

end Draft

namespace Statement

open Draft

variable {s : Statement} {body : List Statement} {d e : Draft} {x : StateId} {n : String}

theorem determined_extendAll (body : List Statement) (x : StateId) :
    Determined ((extendAll body Draft.empty).draft.outgoing x) :=
  extendAll_invariant (fun _ => .stop) determined_of_move body x

/-- **A drawing goes on from every state that it reaches**, but for its end. -/
theorem Draws.leftBehind (h : d.Sound) (drawn : Draws s d e) {waits : StateId → Prop}
    (hd : d.LeftBehind waits) : e.LeftBehind waits := by
  have ends : ∀ {d : Draft} {x : StateId} {waits : StateId → Prop}, d.current = some x →
      ∀ y, d.current = some y → x = y ∨ waits y :=
    fun hx y hy => Or.inl (Option.some.inj (hx.symm.trans hy))
  induction drawn generalizing waits with
  | label placed => exact hd.place h placed
  | send here | receive here => exact hd.step (ends here) _
  | jump here => exact hd.jump h here _
  | @branch d e x guard consequent here inner ih =>
    have inside := ih (h.step _ _) (hd.step (ends here) (.entering guard))
    exact LeftBehind.join (inside.mono fun y hw => Or.inl hw) fun y hy => Or.inl hy
  | @branchElse d e f x guard consequent alternative here first second ihf ihs =>
    have inside := ihf (h.step _ _) (hd.step (ends here) (.entering guard))
    have sound := (first.grown (h.step _ _)).sound
    -- while the alternative is drawn, the end of the consequent waits
    have waiting : e.LeftBehind fun y => waits y ∨ e.current = some y :=
      inside.mono fun y hw => Or.inl hw
    have passed := waiting.step (x := x) (fun y hy => Or.inr (Or.inr hy)) (.passing guard)
    have both := ihs (sound.step _ _) passed
    refine LeftBehind.join (both.mono fun y hw => ?_) fun y hy => Or.inr hy
    exact hw.imp_right Or.inl

theorem DrawsAll.leftBehind (h : d.Sound) (drawn : DrawsAll body d e) {waits : StateId → Prop}
    (hd : d.LeftBehind waits) : e.LeftBehind waits := by
  induction drawn with
  | nil => exact hd
  | cons head _ ih => exact ih (head.grown h).sound (head.leftBehind h hd)

theorem leftBehind_empty (waits : StateId → Prop) : Draft.empty.LeftBehind waits := by
  rintro x ⟨name, hs, -⟩ away
  have start : x = initial := congrArg State.id (List.mem_singleton.mp hs)
  exact absurd (congrArg some start.symm) away

/-- Nothing leaves a state just when the path ends there or its label is not placed. -/
theorem DrawsAll.outgoing_eq_nil_iff (drawn : DrawsAll body Draft.empty e) {name : Option String}
    (hs : ⟨x, name⟩ ∈ e.states) :
    e.outgoing x = [] ↔ e.current = some x ∨ ∃ n, name = some n ∧ n ∉ e.placed := by
  have tidy := drawn.tidy tidy_empty
  constructor
  · intro stop
    by_contra h
    obtain ⟨away, placed⟩ := not_or.mp h
    have fixed : e.Fixed x :=
      ⟨name, hs, fun n hn => by_contra fun hp => placed ⟨n, hn, hp⟩⟩
    exact drawn.leftBehind sound_empty (leftBehind_empty fun _ => False) x fixed away id stop
  · rintro (here | ⟨n, rfl, hn⟩)
    · exact tidy.outgoing_current here
    · by_contra left
      exact hn (tidy.sound.name_placed (tidy.of_outgoing left).1 hs)

/-- The state where the path ends after a body, if control may reach its end. -/
def endOf (body : List Statement) : Option StateId :=
  (extendAll body Draft.empty).draft.current

/-- **The dead ends of a body** are the labels that are jumped to and not placed, and its end. -/
theorem outgoing_eq_nil_iff_of_extendAll (drawn : extendAll body Draft.empty = .done e)
    {name : Option String} (hs : ⟨x, name⟩ ∈ e.states) :
    e.outgoing x = [] ↔ (∃ n, name = some n ∧ n ≠ startLabel ∧ n ∈ body.flatMap targets ∧
      n ∉ body.flatMap labels) ∨ endOf body = some x := by
  have derived := extendAll_empty_eq_done_iff.mp drawn
  have ends : endOf body = e.current := by rw [endOf, drawn, Attempt.done]
  rw [derived.outgoing_eq_nil_iff hs, ends, or_comm]
  refine or_congr_left (exists_congr fun n => and_congr_right ?_)
  rintro rfl
  have placed : n ∈ e.placed ↔ n = startLabel ∨ n ∈ (afterStart body).flatMap labels := by
    rw [derived.placed_eq, List.mem_append]
    exact or_congr_left List.mem_singleton
  have named : n = startLabel ∨ n ∈ (afterStart body).flatMap labels ∨
      n ∈ (afterStart body).flatMap targets :=
    (derived.mem_names_iff.mp (mem_names.mpr ⟨x, hs⟩)).imp_left List.mem_singleton.mp
  rw [targets_afterStart] at named
  rw [placed, not_or]
  refine and_congr_right fun hn => ?_
  rw [mem_labels_afterStart hn] at named ⊢
  constructor
  · exact fun unplaced => ⟨(named.resolve_left hn).resolve_left unplaced, unplaced⟩
  · exact fun h => h.2

theorem isSome_endOf (drawn : extendAll body Draft.empty = .done e) :
    (endOf body).isSome = reachesEnd true body := by
  have derived := extendAll_empty_eq_done_iff.mp drawn
  have ends : endOf body = e.current := by rw [endOf, drawn, Attempt.done]
  rw [ends, derived.isSome_current, ← reachesEnd_afterStart body]
  rfl

end Statement

namespace Model

open Statement Declaration

variable {leniency : Leniency} {nodes : List Node} {m : Model} {p : Process}

/-- **What leaves the states of a process.** Transitions of one state never compete. The states that
nothing leaves are those of labels that the body jumps to and does not place, and the one where the
body ends if control may reach its end. -/
theorem outgoing_structured (h : ofNodes leniency nodes = .ok m) (hp : p ∈ m.processes) :
    (∀ s ∈ p.states, Determined (p.transitionsFrom s.id)) ∧
    (∃ body, Declares leniency nodes p body ∧ (endOf body).isSome = reachesEnd true body ∧
      (∀ x, endOf body = some x → ∃ s ∈ p.states, s.id = x) ∧
      ∀ s ∈ p.states, p.transitionsFrom s.id = [] ↔
        (∃ n, s.name = some n ∧ n ≠ Draft.startLabel ∧ n ∈ body.flatMap targets ∧
          n ∉ body.flatMap labels) ∨ endOf body = some s.id) ∧
    (leniency.unplacedLabels = false → ∀ s ∈ p.states, ∀ t ∈ p.states,
      p.transitionsFrom s.id = [] → p.transitionsFrom t.id = [] → s = t) := by
  obtain ⟨body, d, declared, drawn, graph, complete⟩ := exists_graph h hp
  have derived := extendAll_empty_eq_done_iff.mp drawn
  have tidy := derived.tidy Draft.tidy_empty
  have outgoing : ∀ x, p.transitionsFrom x = d.outgoing x := fun x => by
    rw [Process.transitionsFrom, graph.transitions, Draft.outgoing]
  simp only [outgoing, graph.states]
  refine ⟨fun s _ => ?_, ⟨body, declared, isSome_endOf drawn, fun x hx => ?_, fun s hs => ?_⟩, ?_⟩
  · have determined := determined_extendAll body s.id
    rwa [drawn] at determined
  · rw [endOf, drawn] at hx
    obtain ⟨name, hs, -⟩ := tidy.current x hx
    exact ⟨_, hs, rfl⟩
  · exact outgoing_eq_nil_iff_of_extendAll drawn hs
  · intro strict s hs t ht stop stop'
    have placed : ∀ n ∈ d.names, n ∈ d.placed := by
      refine Draft.unplaced_eq_nil_iff.mp (complete.resolve_left ?_)
      rw [strict]
      exact Bool.false_ne_true
    have at_end : ∀ s ∈ d.states, d.outgoing s.id = [] → d.current = some s.id := by
      intro s hs stop
      refine ((derived.outgoing_eq_nil_iff hs).mp stop).resolve_right ?_
      rintro ⟨n, hn, unplaced⟩
      exact unplaced (placed n (Draft.mem_names.mpr ⟨s.id, hn ▸ hs⟩))
    refine tidy.sound.eq_of_id hs ht (Option.some.inj ?_)
    rw [← at_end s hs stop, ← at_end t ht stop']

/-- A branch of which one alternative jumps to a label that is not placed. The state of this label
is a dead end, and so is the one behind the branch. -/
theorem outgoing_structured_branch : ∃ p,
    ofNodes { unplacedLabels := true } [.list [.symbol "defprocess", .list [.symbol "if",
      .symbol "late", .list [.symbol "goto", .keyword ":done"],
      .list [.symbol "!send", .symbol "Ping"]]]] = .ok ⟨[], [p]⟩ ∧
    p.states.length = 6 ∧ (∀ s ∈ p.states, Determined (p.transitionsFrom s.id)) ∧
    ∀ s ∈ p.states, p.transitionsFrom s.id = [] ↔ s.name = some ":done" ∨ 6 = s.id := by
  refine ⟨_, rfl, rfl, ?_⟩
  obtain ⟨determined, ⟨body, ⟨elements, hn, -, spelt⟩, -, -, stops⟩, -⟩ :=
    @outgoing_structured { unplacedLabels := true } [.list [.symbol "defprocess", .list
      [.symbol "if", .symbol "late", .list [.symbol "goto", .keyword ":done"],
        .list [.symbol "!send", .symbol "Ping"]]]] _ _ rfl (List.mem_singleton_self _)
  refine ⟨determined, fun s hs => (stops s hs).trans ?_⟩
  obtain rfl := Node.list.inj (List.mem_singleton.mp hn)
  obtain ⟨-, -, rfl⟩ := spelt.of_list
  refine or_congr ⟨?_, fun named => ⟨_, named, by decide, List.mem_singleton_self _, nofun⟩⟩
    Option.some_inj
  rintro ⟨n, named, -, target, -⟩
  exact named.trans (congrArg some (List.mem_singleton.mp target))

end Model

end ProtocolGraph
