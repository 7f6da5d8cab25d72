import ProtocolGraph.Proofs.Statement.Draws

/-!
# Labels that are placed on the way

Drawing may fail half way, and what it placed until then stays placed. `Statement.Places` says which
labels these are, by following control to a label: `s.Places d n` when drawing the statement into
the draft comes to a label `n` where it can be placed.

* **`Statement.placed_extend_iff`**: what is placed after drawing, whether it fails or not, was
  placed before or is placed on the way.
* `Statement.placed_extendAll_iff`: the same for a list of statements.
-/

namespace ProtocolGraph.Statement

open Draft

/-- Drawing the statement into the draft comes to a label of this name and places it. -/
inductive Places : Statement → Draft → String → Prop
  | label {d e n x} (placed : d.place n = .ok (x, e)) : Places (.label n) d n
  | branch {d x guard consequent n} (here : d.current = some x)
      (inner : Places consequent (d.step x (.entering guard)) n) :
      Places (.branch guard consequent) d n
  | consequent {d x guard consequent alternative n} (here : d.current = some x)
      (inner : Places consequent (d.step x (.entering guard)) n) :
      Places (.branchElse guard consequent alternative) d n
  | alternative {d e x guard consequent alternative n} (here : d.current = some x)
      (first : consequent.extend (d.step x (.entering guard)) = .done e)
      (inner : Places alternative (e.step x (.passing guard)) n) :
      Places (.branchElse guard consequent alternative) d n

/-- Drawing the statements one after the other comes to a label of this name and places it. -/
inductive PlacesAll : List Statement → Draft → String → Prop
  | head {s rest d n} (places : Places s d n) : PlacesAll (s :: rest) d n
  | tail {s rest d e n} (first : s.extend d = .done e) (places : PlacesAll rest e n) :
      PlacesAll (s :: rest) d n

variable {s : Statement} {body : List Statement} {d e : Draft} {n m : String}

section Inversion

variable {guard : Expression} {consequent alternative : Statement}

theorem places_branch_iff : (branch guard consequent).Places d n ↔
    ∃ x, d.current = some x ∧ consequent.Places (d.step x (.entering guard)) n := by
  constructor
  · intro h
    cases h with
    | branch here inner => exact ⟨_, here, inner⟩
  · rintro ⟨x, here, inner⟩
    exact .branch here inner

theorem places_branchElse_iff : (branchElse guard consequent alternative).Places d n ↔
    ∃ x, d.current = some x ∧ (consequent.Places (d.step x (.entering guard)) n ∨
      ∃ e, consequent.extend (d.step x (.entering guard)) = .done e ∧
        alternative.Places (e.step x (.passing guard)) n) := by
  constructor
  · intro h
    cases h with
    | consequent here inner => exact ⟨_, here, Or.inl inner⟩
    | alternative here first inner => exact ⟨_, here, Or.inr ⟨_, first, inner⟩⟩
  · rintro ⟨x, here, inner | ⟨e, first, inner⟩⟩
    · exact .consequent here inner
    · exact .alternative here first inner

theorem placesAll_cons_iff {rest : List Statement} : PlacesAll (s :: rest) d n ↔
    s.Places d n ∨ ∃ e, s.extend d = .done e ∧ PlacesAll rest e n := by
  constructor
  · intro h
    cases h with
    | head places => exact Or.inl places
    | tail first places => exact Or.inr ⟨_, first, places⟩
  · rintro (places | ⟨e, first, places⟩)
    · exact .head places
    · exact .tail first places

end Inversion

theorem placed_placeHere_iff (h : d.Sound) :
    n ∈ (d.placeHere m).draft.placed ↔ n ∈ d.placed ∨ Places (.label m) d n := by
  unfold placeHere
  by_cases idle : m = startLabel ∧ d.current = some initial
  · rw [if_pos idle]
    refine (or_iff_left ?_).symm
    rintro ⟨placed⟩
    exact (place_eq_ok_iff.mp placed).1 (idle.1 ▸ h.start_placed)
  · rw [if_neg idle]
    cases hp : d.place m with
    | error fault =>
      refine (or_iff_left ?_).symm
      rintro ⟨placed⟩
      cases hp.symm.trans placed
    | ok r =>
      obtain ⟨x, e⟩ := r
      have placed : ((e.connectFrom d.current x {}).moveTo (some x)).placed = d.placed ++ [m] :=
        (placed_connectFrom _ _ _ _).trans (placed_of_place hp)
      show n ∈ ((e.connectFrom d.current x {}).moveTo (some x)).placed ↔ _
      rw [placed, List.mem_append, List.mem_singleton]
      refine or_congr_right ⟨?_, fun places => ?_⟩
      · rintro rfl
        exact .label hp
      · cases places
        rfl

theorem placed_fromHere {name : String} {work : StateId → Attempt}
    (h : ∀ x, d.current = some x → (work x).draft.placed = d.placed) :
    (d.fromHere name work).draft.placed = d.placed := by
  unfold fromHere
  cases hc : d.current with
  | none => rfl
  | some x => exact h x hc

/-- What is placed by an attempt and by what follows it if it succeeds. -/
theorem placed_andThen_iff {a : Attempt} {next : Draft → Attempt} {p : Draft → Prop}
    (h : ∀ e, a = .done e → (n ∈ (next e).draft.placed ↔ n ∈ e.placed ∨ p e)) :
    n ∈ (a.andThen next).draft.placed ↔ n ∈ a.draft.placed ∨ ∃ e, a = .done e ∧ p e := by
  obtain ⟨draft, failure⟩ := a
  cases failure with
  | none =>
    refine (h draft rfl).trans (or_congr_right ⟨fun hp => ⟨draft, rfl, hp⟩, ?_⟩)
    rintro ⟨e, he, hp⟩
    exact Attempt.done_eq_done_iff.mp he ▸ hp
  | some f =>
    refine (or_iff_left ?_).symm
    rintro ⟨e, he, -⟩
    cases (Attempt.eq_done_iff.mp he).1

/-- An alternative that is joined to the graph places nothing more. -/
theorem placed_andThen_join {a : Attempt} {f : Draft → Draft} (h : ∀ e, (f e).placed = e.placed) :
    (a.andThen fun e => .done (f e)).draft.placed = a.draft.placed := by
  obtain ⟨draft, failure⟩ := a
  cases failure with
  | none => exact h draft
  | some _ => rfl

/-- A statement in which no label is placed leaves the placed labels as they were. -/
theorem placed_iff_of_eq (h : e.placed = d.placed) (never : ¬s.Places d n) :
    n ∈ e.placed ↔ n ∈ d.placed ∨ s.Places d n := by
  rw [h, or_iff_left never]

/-- **What is placed after drawing** was placed before, or it is placed on the way, whether drawing
fails or not. -/
theorem placed_extend_iff (s : Statement) : ∀ {d : Draft}, d.Sound →
    (n ∈ (s.extend d).draft.placed ↔ n ∈ d.placed ∨ s.Places d n) := by
  induction s with
  | label name => exact fun h => placed_placeHere_iff h
  | send message valuation =>
    exact fun _ => placed_iff_of_eq (placed_fromHere fun _ _ => rfl) fun places => by cases places
  | receive message =>
    exact fun _ => placed_iff_of_eq (placed_fromHere fun _ _ => rfl) fun places => by cases places
  | jump target =>
    refine fun _ => placed_iff_of_eq (placed_fromHere fun x _ => ?_) fun places => by cases places
    show (Draft.jump x target _).placed = _
    rw [jump_eq, reserve_eq]
  | branch guard consequent ih =>
    intro d h
    rw [places_branch_iff, extend, fromHere]
    cases d.current with
    | none => simp [Attempt.failed]
    | some x =>
      rw [Attempt.draft_within, placed_andThen_join fun e => placed_join e _ _, ih (h.step x _)]
      simp only [Option.some.injEq, exists_eq_left']
      rfl
  | branchElse guard consequent alternative ihc iha =>
    intro d h
    rw [places_branchElse_iff, extend, fromHere]
    cases d.current with
    | none => simp [Attempt.failed]
    | some x =>
      have entered := h.step x (.entering guard)
      have second : ∀ e, consequent.extend (d.step x (.entering guard)) = .done e →
          (n ∈ ((alternative.extend (e.step x (.passing guard))).andThen fun f =>
            .done (f.join e.current f.current)).draft.placed ↔
            n ∈ e.placed ∨ alternative.Places (e.step x (.passing guard)) n) := fun e he => by
        rw [placed_andThen_join fun f => placed_join f _ _,
          iha ((sound_of_extend entered he).step x _)]
        rfl
      rw [Attempt.draft_within, placed_andThen_iff second, ihc entered, or_assoc]
      simp only [Option.some.injEq, exists_eq_left']
      rfl
  | misread form cause =>
    exact fun _ => placed_iff_of_eq (placed_fromHere fun _ _ => rfl) fun places => by cases places
  | foreign cause => exact fun _ => placed_iff_of_eq rfl fun places => by cases places

/-- **What is placed after drawing statements** was placed before, or it is placed on the way. -/
theorem placed_extendAll_iff (body : List Statement) : ∀ {d : Draft}, d.Sound →
    (n ∈ (extendAll body d).draft.placed ↔ n ∈ d.placed ∨ PlacesAll body d n) := by
  induction body with
  | nil => exact fun _ => (or_iff_left fun places => by cases places).symm
  | cons s rest ih =>
    intro d h
    rw [extendAll, placed_andThen_iff fun e he => ih (sound_of_extend h he), placed_extend_iff s h,
      placesAll_cons_iff, or_assoc]

end ProtocolGraph.Statement
