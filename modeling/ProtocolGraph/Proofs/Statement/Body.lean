import ProtocolGraph.Proofs.Statement.Draws

/-!
# Bodies

A body is a list of statements, drawn one after the other. The start labels in front of it change
nothing: what is drawn is `afterStart body`.

* `extendAll_empty_eq_done_iff`: drawing a body into the empty draft succeeds exactly when there is
  a derivation of `afterStart body`.
* `DrawsAll.placed_eq`, `DrawsAll.mem_names_iff`, `DrawsAll.isSome_current`: the labels placed and
  the names reserved by a whole body, and whether control may reach its end (`reachesEnd`).
* `extendAll_invariant`: what every move keeps holds of every draft that a body leaves behind, even
  if it fails.
-/

namespace ProtocolGraph

namespace Statement

open Draft

variable {s : Statement} {body rest : List Statement} {d e : Draft} {x : StateId} {n : String}

namespace DrawsAll

theorem grown (h : d.Sound) (drawn : DrawsAll body d e) : d.Extends e := by
  induction drawn with
  | nil => exact Extends.refl h
  | cons head _ ih =>
    have first := head.grown h
    exact first.trans (ih first.sound)

theorem tidy (h : d.Tidy) (drawn : DrawsAll body d e) : e.Tidy := by
  induction drawn with
  | nil => exact h
  | cons head _ ih => exact ih (head.tidy h)

theorem placed_eq (drawn : DrawsAll body d e) : e.placed = d.placed ++ body.flatMap labels := by
  induction drawn with
  | nil => exact (List.append_nil _).symm
  | cons head _ ih => rw [ih, head.placed_eq, List.flatMap_cons, List.append_assoc]

theorem mem_names_iff (drawn : DrawsAll body d e) :
    n ∈ e.names ↔ n ∈ d.names ∨ n ∈ body.flatMap labels ∨ n ∈ body.flatMap targets := by
  induction drawn with
  | nil => simp
  | cons head _ ih =>
    rw [ih, head.mem_names_iff, List.flatMap_cons, List.flatMap_cons, List.mem_append,
      List.mem_append]
    grind

end DrawsAll

/-- Control may reach the end of the statements, when `here` says whether it may reach their
start. -/
def reachesEnd (here : Bool) : List Statement → Bool
  | [] => here
  | s :: rest => reachesEnd s.goesOn rest

theorem DrawsAll.isSome_current (drawn : DrawsAll body d e) :
    e.current.isSome = reachesEnd d.current.isSome body := by
  induction drawn with
  | nil => rfl
  | cons head _ ih => rw [ih, head.isSome_current, reachesEnd]

/-! ## Drawing a body -/

theorem extendAll_cons_eq_done_iff :
    extendAll (s :: rest) d = .done e ↔ ∃ f, s.extend d = .done f ∧ extendAll rest f = .done e := by
  rw [extendAll, Attempt.andThen_eq_done_iff]

theorem extendAll_eq_done_iff (body : List Statement) : ∀ {d e : Draft}, d.Sound →
    d.current ≠ some initial → (extendAll body d = .done e ↔ DrawsAll body d e) := by
  induction body with
  | nil =>
    intro d e _ _
    constructor
    · intro h
      rw [← (Attempt.eq_done_iff.mp h).2]
      exact .nil
    · intro h
      cases h with
      | nil => rfl
  | cons s rest ih =>
    intro d e h departed
    rw [extendAll_cons_eq_done_iff]
    constructor
    · rintro ⟨f, hf, he⟩
      have head := (extend_eq_done_iff s h (Or.inl departed)).mp hf
      exact .cons head ((ih (head.grown h).sound (head.departed h)).mp he)
    · intro drawn
      cases drawn with
      | cons head tail =>
        exact ⟨_, head.extend_eq h, (ih (head.grown h).sound (head.departed h)).mpr tail⟩

/-- The body without the start labels in front of it. -/
def afterStart (body : List Statement) : List Statement :=
  body.dropWhile fun s => s = .label startLabel

theorem afterStart_cons_start (rest : List Statement) :
    afterStart (.label startLabel :: rest) = afterStart rest := by
  rw [afterStart, List.dropWhile_cons, if_pos (decide_eq_true rfl)]
  rfl

theorem afterStart_cons (hs : s ≠ .label startLabel) : afterStart (s :: rest) = s :: rest := by
  rw [afterStart, List.dropWhile_cons, if_neg (by rwa [decide_eq_true_eq])]

/-- What a start label in front does not change is the same without them. -/
theorem afterStart_invariant {α : Type} (f : List Statement → α)
    (idle : ∀ rest, f (.label startLabel :: rest) = f rest) (body : List Statement) :
    f (afterStart body) = f body := by
  induction body with
  | nil => rfl
  | cons s rest ih =>
    by_cases hs : s = .label startLabel
    · rw [hs, afterStart_cons_start, ih, idle]
    · rw [afterStart_cons hs]

theorem targets_afterStart (body : List Statement) :
    (afterStart body).flatMap targets = body.flatMap targets :=
  afterStart_invariant (·.flatMap targets) (fun _ => rfl) body

theorem mem_labels_afterStart (hn : n ≠ startLabel) (body : List Statement) :
    n ∈ (afterStart body).flatMap labels ↔ n ∈ body.flatMap labels := by
  have idle : ∀ rest,
      (n ∈ (label startLabel :: rest).flatMap labels) = (n ∈ rest.flatMap labels) := by
    intro rest
    rw [List.flatMap_cons, List.mem_append]
    exact propext (or_iff_right fun h => hn (List.mem_singleton.mp h))
  exact iff_of_eq (afterStart_invariant (fun body => n ∈ body.flatMap labels) idle body)

theorem reachesEnd_afterStart (body : List Statement) :
    reachesEnd true (afterStart body) = reachesEnd true body :=
  afterStart_invariant (reachesEnd true) (fun _ => rfl) body

/-- **A body is drawn from the initial state** as if it had no start labels in front. -/
theorem extendAll_initial_eq_done_iff (h : d.Sound) (start : d.current = some initial) :
    extendAll body d = .done e ↔ DrawsAll (afterStart body) d e := by
  induction body with
  | nil =>
    constructor
    · intro h
      rw [← (Attempt.eq_done_iff.mp h).2]
      exact .nil
    · intro h
      cases h with
      | nil => rfl
  | cons s rest ih =>
    rw [extendAll_cons_eq_done_iff]
    by_cases hs : s = .label startLabel
    · have idle : s.extend d = .done d := by
        rw [hs, extend, placeHere, if_pos ⟨rfl, start⟩]
      rw [hs] at idle ⊢
      rw [afterStart_cons_start, ← ih, idle]
      constructor
      · rintro ⟨f, hf, he⟩
        rwa [show d = f from (Attempt.eq_done_iff.mp hf).2]
      · exact fun he => ⟨d, rfl, he⟩
    · rw [afterStart_cons hs]
      constructor
      · rintro ⟨f, hf, he⟩
        have head := (extend_eq_done_iff s h (Or.inr hs)).mp hf
        exact .cons head
          ((extendAll_eq_done_iff rest (head.grown h).sound (head.departed h)).mp he)
      · intro drawn
        cases drawn with
        | cons head tail =>
          exact ⟨_, head.extend_eq h,
            (extendAll_eq_done_iff rest (head.grown h).sound (head.departed h)).mpr tail⟩

theorem extendAll_empty_eq_done_iff :
    extendAll body Draft.empty = .done e ↔ DrawsAll (afterStart body) Draft.empty e :=
  extendAll_initial_eq_done_iff sound_empty rfl

/-! ## Invariants -/

theorem moves_extendAll (body : List Statement) :
    ∀ {d : Draft}, d.Tidy → Relation.ReflTransGen Move d (extendAll body d).draft := by
  induction body with
  | nil => exact fun _ => .refl
  | cons s rest ih =>
    intro d h
    have first := moves_extend s h
    exact moves_andThen first (ih (h.of_moves first))

/-- **Invariants of moves are invariants of bodies**: what holds of the empty draft and is kept by
every move of a tidy draft holds of whatever a body leaves behind. -/
theorem extendAll_invariant {I : Draft → Prop} (start : I Draft.empty)
    (step : ∀ {d e}, d.Tidy → Move d e → I d → I e) (body : List Statement) :
    I (extendAll body Draft.empty).draft := by
  have moves := moves_extendAll body tidy_empty
  suffices h : ∀ {d}, Relation.ReflTransGen Move Draft.empty d → d.Tidy ∧ I d from (h moves).2
  intro d moves
  induction moves with
  | refl => exact ⟨tidy_empty, start⟩
  | tail _ move ih => exact ⟨ih.1.of_move move, step ih.1 move ih.2⟩

end Statement

end ProtocolGraph
