import ProtocolGraph.Proofs.Draft.Move

/-!
# Drawings that succeed

`Draws s d e` is the derivation of a successful drawing: the statement `s`, drawn into `d`, leaves
`e`. It has a rule for each kind of statement that can be drawn (`draws_label_iff` and so on), and
`DrawsAll` follows a list.

* `extend_eq_done_iff`: where the path has left the initial state, `Statement.extend` succeeds
  exactly when there is a derivation. At the initial state the start label changes nothing; a body
  is drawn as if its leading start labels were not there (`extendAll_eq_done_iff`).
* `Draws.away`: the path never comes back to a state that was fixed.
* `Draws.placed_eq`, `Draws.mem_names_iff`: the labels placed and the names reserved on the way are
  those that the statement mentions (`labels`, `targets`).
* `Draws.isSome_current`: whether the path goes on is known from the statement (`goesOn`).
-/

namespace ProtocolGraph

namespace Attempt

variable {a : Attempt} {d : Draft}

theorem eq_done_iff : a = done d ↔ a.failure = none ∧ a.draft = d := by
  obtain ⟨draft, failure⟩ := a
  simp only [done, Attempt.mk.injEq]
  exact And.comm

theorem done_eq_done_iff {e : Draft} : done e = done d ↔ d = e := by
  rw [eq_done_iff]
  exact ⟨fun h => h.2.symm, fun h => ⟨rfl, h.symm⟩⟩

theorem failed_ne_done (cause : Cause) (e : Draft) : failed cause e ≠ done d := by
  intro h
  cases (eq_done_iff.mp h).1

theorem andThen_eq_done_iff {next : Draft → Attempt} :
    a.andThen next = done d ↔ ∃ e, a = done e ∧ next e = done d := by
  obtain ⟨draft, failure⟩ := a
  cases failure with
  | none =>
    constructor
    · exact fun h => ⟨draft, rfl, h⟩
    · rintro ⟨e, he, hn⟩
      rwa [he, done_andThen]
  | some f =>
    constructor
    · exact fun h => by cases (eq_done_iff.mp h).1
    · rintro ⟨e, he, -⟩
      cases (eq_done_iff.mp he).1

theorem within_eq_done_iff {form : String} : a.within form = done d ↔ a = done d := by
  rw [eq_done_iff, eq_done_iff, failure_within_eq_none_iff, draft_within]

end Attempt

namespace Draft

theorem fromHere_eq_done_iff {d e : Draft} {name : String} {work : StateId → Attempt} :
    d.fromHere name work = .done e ↔ ∃ x, d.current = some x ∧ work x = .done e := by
  unfold fromHere
  cases d.current with
  | none => simp [Attempt.failed_ne_done]
  | some x => simp

theorem placeHere_eq_done_iff {d e : Draft} {n : String}
    (departed : d.current ≠ some initial ∨ n ≠ startLabel) :
    d.placeHere n = .done e ↔ ∃ x f, d.place n = .ok (x, f) ∧
      e = (f.connectFrom d.current x {}).moveTo (some x) := by
  unfold placeHere
  rw [if_neg fun h => departed.elim (fun hd => hd h.2) fun hn => hn h.1]
  cases d.place n with
  | error fault => simp [Attempt.failed_ne_done]
  | ok r =>
    obtain ⟨x, f⟩ := r
    simp [Attempt.done, eq_comm]

/-- Two ends of the path, if there are any, meet in the next state. -/
theorem current_join {d : Draft} {a b : Option StateId} {x : StateId}
    (h : (d.join a b).current = some x) : x = d.nextState := by
  unfold join at h
  split at h
  · cases h
  · exact (Option.some.inj h).symm

theorem isSome_current_join (d : Draft) (a b : Option StateId) :
    (d.join a b).current.isSome = (a.isSome || b.isSome) := by
  unfold join
  cases a <;> cases b <;> rfl

theorem names_step {d : Draft} {x : StateId} {label : Label} : (d.step x label).names = d.names :=
  names_addState_none

theorem names_moveTo (c : Option StateId) (d : Draft) : (d.moveTo c).names = d.names := rfl

theorem names_connectFrom (source : Option StateId) (target : StateId) (label : Label) (d : Draft) :
    (d.connectFrom source target label).names = d.names := by
  cases source <;> rfl

theorem placed_connectFrom (source : Option StateId) (target : StateId) (label : Label)
    (d : Draft) : (d.connectFrom source target label).placed = d.placed := by
  cases source <;> rfl

theorem names_join (d : Draft) (a b : Option StateId) : (d.join a b).names = d.names := by
  unfold join
  split
  · rfl
  · exact ((names_connectFrom _ _ _ _).trans (names_connectFrom _ _ _ _)).trans names_addState_none

theorem placed_join (d : Draft) (a b : Option StateId) : (d.join a b).placed = d.placed := by
  unfold join
  split
  · rfl
  · exact (placed_connectFrom _ _ _ _).trans (placed_connectFrom _ _ _ _)

end Draft

namespace Statement

open Draft

/-! ## Derivations -/

/-- The statement, drawn into the first draft, leaves the second. -/
inductive Draws : Statement → Draft → Draft → Prop
  | label {d e name x} (placed : d.place name = .ok (x, e)) :
      Draws (.label name) d ((e.connectFrom d.current x {}).moveTo (some x))
  | send {d x message valuation} (here : d.current = some x) :
      Draws (.send message valuation) d (d.step x (.sending message valuation))
  | receive {d x message} (here : d.current = some x) :
      Draws (.receive message) d (d.step x (.receiving message))
  | jump {d x target} (here : d.current = some x) : Draws (.jump target) d (d.jump x target)
  | branch {d e x guard consequent} (here : d.current = some x)
      (inner : Draws consequent (d.step x (.entering guard)) e) :
      Draws (.branch guard consequent) d (e.join e.current none)
  | branchElse {d e f x guard consequent alternative} (here : d.current = some x)
      (first : Draws consequent (d.step x (.entering guard)) e)
      (second : Draws alternative (e.step x (.passing guard)) f) :
      Draws (.branchElse guard consequent alternative) d (f.join e.current f.current)

/-- The statements, drawn one after the other into the first draft, leave the second. -/
inductive DrawsAll : List Statement → Draft → Draft → Prop
  | nil {d} : DrawsAll [] d d
  | cons {d e f s rest} (head : Draws s d e) (tail : DrawsAll rest e f) : DrawsAll (s :: rest) d f

variable {s : Statement} {body : List Statement} {d e : Draft} {x : StateId} {n : String}

theorem step_departed (h : d.Sound) (label : Label) :
    (d.step x label).current ≠ some initial :=
  h.away_step h.fixed_initial

theorem sound_of_extend (h : d.Sound) (he : s.extend d = .done e) : e.Sound := by
  have grown := extends_extend s h
  rw [he] at grown
  exact grown.sound

/-! ### What each kind of statement draws -/

section Inversion

variable {message target form : String} {valuation : Valuation} {guard : Expression}
  {consequent alternative : Statement} {cause : Cause}

theorem draws_label_iff : Draws (.label n) d e ↔
    ∃ x f, d.place n = .ok (x, f) ∧ e = (f.connectFrom d.current x {}).moveTo (some x) := by
  constructor
  · intro h
    cases h with
    | label placed => exact ⟨_, _, placed, rfl⟩
  · rintro ⟨x, f, placed, rfl⟩
    exact .label placed

theorem draws_send_iff : Draws (.send message valuation) d e ↔
    ∃ x, d.current = some x ∧ e = d.step x (.sending message valuation) := by
  constructor
  · intro h
    cases h with
    | send here => exact ⟨_, here, rfl⟩
  · rintro ⟨x, here, rfl⟩
    exact .send here

theorem draws_receive_iff : Draws (.receive message) d e ↔
    ∃ x, d.current = some x ∧ e = d.step x (.receiving message) := by
  constructor
  · intro h
    cases h with
    | receive here => exact ⟨_, here, rfl⟩
  · rintro ⟨x, here, rfl⟩
    exact .receive here

theorem draws_jump_iff :
    Draws (.jump target) d e ↔ ∃ x, d.current = some x ∧ e = d.jump x target := by
  constructor
  · intro h
    cases h with
    | jump here => exact ⟨_, here, rfl⟩
  · rintro ⟨x, here, rfl⟩
    exact .jump here

theorem draws_branch_iff : Draws (.branch guard consequent) d e ↔
    ∃ x, d.current = some x ∧ ∃ f, Draws consequent (d.step x (.entering guard)) f ∧
      e = f.join f.current none := by
  constructor
  · intro h
    cases h with
    | branch here inner => exact ⟨_, here, _, inner, rfl⟩
  · rintro ⟨x, here, f, inner, rfl⟩
    exact .branch here inner

theorem draws_branchElse_iff : Draws (.branchElse guard consequent alternative) d e ↔
    ∃ x, d.current = some x ∧ ∃ f, Draws consequent (d.step x (.entering guard)) f ∧
      ∃ g, Draws alternative (f.step x (.passing guard)) g ∧ e = g.join f.current g.current := by
  constructor
  · intro h
    cases h with
    | branchElse here first second => exact ⟨_, here, _, first, _, second, rfl⟩
  · rintro ⟨x, here, f, first, g, second, rfl⟩
    exact .branchElse here first second

theorem not_draws_misread : ¬Draws (.misread form cause) d e :=
  nofun

theorem not_draws_foreign : ¬Draws (.foreign cause) d e :=
  nofun

end Inversion

/-! ### Drawing and derivations -/

/-- **Drawing succeeds exactly when there is a derivation**, unless a start label stands at the
initial state. -/
theorem extend_eq_done_iff (s : Statement) : ∀ {d e : Draft}, d.Sound →
    d.current ≠ some initial ∨ s ≠ .label startLabel → (s.extend d = .done e ↔ Draws s d e) := by
  induction s with
  | label name =>
    intro d e _ departed
    rw [extend, draws_label_iff]
    exact placeHere_eq_done_iff (departed.imp_right fun h he => h (he ▸ rfl))
  | send message valuation =>
    intro d e _ _
    rw [extend, fromHere_eq_done_iff, draws_send_iff]
    simp only [Attempt.done_eq_done_iff]
  | receive message =>
    intro d e _ _
    rw [extend, fromHere_eq_done_iff, draws_receive_iff]
    simp only [Attempt.done_eq_done_iff]
  | jump target =>
    intro d e _ _
    rw [extend, fromHere_eq_done_iff, draws_jump_iff]
    simp only [Attempt.done_eq_done_iff]
  | branch guard consequent ih =>
    intro d e h _
    have inner : ∀ x f, consequent.extend (d.step x (.entering guard)) = .done f ↔
        Draws consequent (d.step x (.entering guard)) f := fun x f =>
      ih (h.step x _) (Or.inl (step_departed h _))
    rw [extend, fromHere_eq_done_iff, draws_branch_iff]
    simp only [Attempt.within_eq_done_iff, Attempt.andThen_eq_done_iff, Attempt.done_eq_done_iff,
      inner]
  | branchElse guard consequent alternative ihc iha =>
    intro d e h _
    have first : ∀ x f, consequent.extend (d.step x (.entering guard)) = .done f ↔
        Draws consequent (d.step x (.entering guard)) f := fun x f =>
      ihc (h.step x _) (Or.inl (step_departed h _))
    have second : ∀ x f g, consequent.extend (d.step x (.entering guard)) = .done f →
        (alternative.extend (f.step x (.passing guard)) = .done g ↔
          Draws alternative (f.step x (.passing guard)) g) := fun x f g hf =>
      have sound := sound_of_extend (h.step x _) hf
      iha (sound.step x _) (Or.inl (step_departed sound _))
    rw [extend, fromHere_eq_done_iff, draws_branchElse_iff]
    simp only [Attempt.within_eq_done_iff, Attempt.andThen_eq_done_iff, Attempt.done_eq_done_iff]
    refine exists_congr fun x => and_congr_right fun _ => exists_congr fun f => ?_
    rw [← first]
    refine and_congr_right fun hf => exists_congr fun g => ?_
    rw [second x f g hf]
  | misread form cause =>
    intro d e _ _
    rw [extend, fromHere_eq_done_iff]
    refine iff_of_false ?_ not_draws_misread
    rintro ⟨x, -, he⟩
    exact Attempt.failed_ne_done cause d (Attempt.within_eq_done_iff.mp he)
  | foreign cause =>
    intro d e _ _
    exact iff_of_false (Attempt.failed_ne_done cause d) not_draws_foreign

namespace Draws

theorem extend_eq (h : d.Sound) (drawn : Draws s d e) : s.extend d = .done e := by
  refine (extend_eq_done_iff s h (Or.inr ?_)).mpr drawn
  rintro rfl
  cases drawn with
  | label placed => exact (place_eq_ok_iff.mp placed).1 h.start_placed

theorem grown (h : d.Sound) (drawn : Draws s d e) : d.Extends e := by
  have := extends_extend s h
  rwa [drawn.extend_eq h] at this

theorem moves (h : d.Tidy) (drawn : Draws s d e) : Relation.ReflTransGen Move d e := by
  have := moves_extend s h
  rwa [drawn.extend_eq h.sound] at this

theorem tidy (h : d.Tidy) (drawn : Draws s d e) : e.Tidy :=
  h.of_moves (drawn.moves h)

/-- **The path never comes back** to a state that was fixed. -/
theorem away (h : d.Sound) (drawn : Draws s d e) (hx : e.current = some x) : ¬d.Fixed x := by
  cases drawn with
  | label placed =>
    rw [← Option.some.inj hx]
    exact h.not_fixed_of_place placed
  | send | receive =>
    rw [← Option.some.inj hx]
    exact h.not_fixed_nextState
  | jump => cases hx
  | branch here inner =>
    have grown := inner.grown (h.step _ _)
    rw [current_join hx]
    exact fun hd => grown.sound.not_fixed_nextState (grown.fixed (hd.addState none))
  | branchElse here first second =>
    have grown := first.grown (h.step _ _)
    have grown' := second.grown (grown.sound.step _ _)
    rw [current_join hx]
    exact fun hd => grown'.sound.not_fixed_nextState
      (grown'.fixed ((grown.fixed (hd.addState none)).addState none))

theorem departed (h : d.Sound) (drawn : Draws s d e) : e.current ≠ some initial := fun hc =>
  drawn.away h hc h.fixed_initial

end Draws

/-! ## Labels and targets -/

/-- The labels that a statement places, in reading order. -/
def labels : Statement → List String
  | .label name => [name]
  | .branch _ consequent => consequent.labels
  | .branchElse _ consequent alternative => consequent.labels ++ alternative.labels
  | _ => []

/-- The labels that a statement jumps to, in reading order. -/
def targets : Statement → List String
  | .jump target => [target]
  | .branch _ consequent => consequent.targets
  | .branchElse _ consequent alternative => consequent.targets ++ alternative.targets
  | _ => []

/-- Control may go on after the statement. -/
def goesOn : Statement → Bool
  | .label _ | .send _ _ | .receive _ => true
  | .branch _ consequent => consequent.goesOn
  | .branchElse _ consequent alternative => consequent.goesOn || alternative.goesOn
  | .jump _ | .misread _ _ | .foreign _ => false

theorem Draws.placed_eq (drawn : Draws s d e) : e.placed = d.placed ++ s.labels := by
  induction drawn with
  | label placed => exact (placed_connectFrom _ _ _ _).trans (placed_of_place placed)
  | send | receive => exact (List.append_nil _).symm
  | jump =>
    rw [jump_eq, reserve_eq]
    exact (List.append_nil _).symm
  | branch here inner ih => exact (placed_join _ _ _).trans ih
  | branchElse here first second ihf ihs =>
    rw [placed_join, ihs, labels, ← List.append_assoc]
    exact congrArg (· ++ _) ihf

theorem Draws.mem_names_iff (drawn : Draws s d e) :
    n ∈ e.names ↔ n ∈ d.names ∨ n ∈ s.labels ∨ n ∈ s.targets := by
  induction drawn with
  | label placed =>
    simp only [labels, targets, List.mem_singleton, List.not_mem_nil, or_false]
    rw [names_moveTo, names_connectFrom]
    exact mem_names_place_iff placed
  | send | receive =>
    simp only [labels, targets, List.not_mem_nil, or_false]
    rw [names_step]
  | jump =>
    simp only [labels, targets, List.mem_singleton, List.not_mem_nil, false_or]
    exact mem_names_reserve_iff
  | branch here inner ih => rw [names_join, ih, names_step, labels, targets]
  | branchElse here first second ihf ihs =>
    rw [names_join, ihs, names_step, ihf, names_step, labels, targets, List.mem_append,
      List.mem_append]
    grind

theorem Draws.isSome_current (drawn : Draws s d e) : e.current.isSome = s.goesOn := by
  induction drawn with
  | label | send | receive | jump => rfl
  | branch here inner ih => rw [isSome_current_join, goesOn, ih, Option.isSome_none, Bool.or_false]
  | branchElse here first second ihf ihs => rw [isSome_current_join, goesOn, ihf, ihs]

end Statement

end ProtocolGraph
