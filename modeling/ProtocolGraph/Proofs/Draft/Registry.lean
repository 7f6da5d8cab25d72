import ProtocolGraph.Draft.Edit
import ProtocolGraph.Proofs.Process.WellFormed
import ProtocolGraph.Proofs.Statement.Places
import ProtocolGraph.Proofs.Text.ByteOrder

/-!
# Histories of drafts

A draft is a registry of names: each name belongs to one state at most, and it is placed at most
once. Its operations keep it so, in whatever order names are created, reserved, placed and looked
up, while statements are drawn that may fail half way and the end of the path is moved anywhere.

* `Edit.Happened`: at some moment of a history an operation of a certain kind was carried out.
* `Edit.grown_apply`: an operation keeps a draft sound and its states what they were, and says which
  labels are placed. So does a history (`Edit.grown_run`).
* `Edit.Answered.mem`: an answer for a name is the state of this name, also at the end of the
  history.
-/

namespace ProtocolGraph

/-! ## Operations -/

namespace Draft

variable {d e : Draft} {n : String} {x : StateId}

theorem addNamed_eq_ok_iff :
    d.addNamed n = .ok (x, e) ↔ n ∉ d.names ∧ x = d.nextState ∧ e = d.addState (some n) := by
  rw [← stateNamed?_eq_none_iff]
  unfold addNamed
  cases d.stateNamed? n with
  | none => simp [eq_comm]
  | some y => simp

theorem addNamed_eq_error_iff {fault : Fault} :
    d.addNamed n = .error fault ↔ fault = .duplicateState n ∧ n ∈ d.names := by
  rw [← not_not (a := n ∈ d.names), ← stateNamed?_eq_none_iff]
  unfold addNamed
  cases d.stateNamed? n with
  | none => simp
  | some y => simp [eq_comm]

theorem place_eq_error_iff {fault : Fault} :
    d.place n = .error fault ↔ fault = .duplicateState n ∧ n ∈ d.placed := by
  unfold place
  split <;> simp_all [eq_comm]

/-- No label is listed twice, so the order of the labels that are left to place is strict. -/
theorem Sound.ascending_unplaced (h : d.Sound) :
    d.unplaced.Pairwise fun a b => Text.bytes a < Text.bytes b :=
  (d.sorted_unplaced.and h.nodup_unplaced).imp fun both =>
    Text.bytes_lt_of_lt (Std.lt_of_le_of_ne both.1 both.2)

end Draft

theorem Statement.extends_extendAll (body : List Statement) : ∀ {d : Draft}, d.Sound →
    d.Extends (extendAll body d).draft := by
  induction body with
  | nil => exact fun h => .refl h
  | cons s rest ih =>
    intro d h
    have first := extends_extend s h
    exact extends_andThen first (first.trans (ih first.sound))

namespace Edit

open Draft

/-! ## One operation -/

/-- The name that an operation asks for the state of. -/
def name? : Edit → Option String
  | addNamed name | findState name | place name | reserve name => some name
  | _ => none

/-- The operation on the draft answers this state for this name. -/
def Answers (edit : Edit) (d : Draft) (name : String) (id : StateId) : Prop :=
  edit.name? = some name ∧ (edit.apply d).1 = .ok (.state (some id))

/-- The operation on the draft places a label of this name, by itself or on the way when it draws
statements. -/
inductive Places : Edit → Draft → String → Prop
  | place {d e n x} (placed : d.place n = .ok (x, e)) : Places (place n) d n
  | draw {d statements n} (drawn : Statement.PlacesAll statements d n) :
      Places (draw statements) d n

variable {d e : Draft} {n m : String} {x y : StateId} {edit : Edit}

/-- The draft `e` has come of `d`: no state was changed, and the labels that were placed on the way
are `new`. -/
structure Grown (d e : Draft) (new : String → Prop) : Prop where
  sound : e.Sound
  states : d.states <+: e.states
  placed : ∀ n, n ∈ e.placed ↔ n ∈ d.placed ∨ new n

variable {new : String → Prop}

/-- More states are all that has changed. -/
theorem grown_of_states (sound : e.Sound) (states : d.states <+: e.states)
    (placed : e.placed = d.placed) (never : ∀ n, ¬new n) : Grown d e new :=
  ⟨sound, states, fun n => by rw [placed, or_iff_left (never n)]⟩

/-- States and labels are what they were. -/
theorem grown_of_eq (h : d.Sound) (states : e.states = d.states) (placed : e.placed = d.placed)
    (never : ∀ n, ¬new n) : Grown d e new :=
  grown_of_states (h.of_eq states placed) (states ▸ List.prefix_rfl) placed never

/-- An operation that leaves the draft alone if it fails. -/
theorem grown_settle {α : Type} {result : Except Draft.Fault α} {next : α → Answer × Draft}
    (h : d.Sound) (failed : ∀ fault, result = .error fault → ∀ n, ¬new n)
    (done : ∀ a, result = .ok a → Grown d (next a).2 new) :
    Grown d (settle d result next).2 new := by
  cases result with
  | error fault => exact grown_of_eq h rfl rfl (failed fault rfl)
  | ok a => exact done a rfl

theorem grown_place (h : d.Sound) (name : String) :
    Grown d ((place name).apply d).2 ((place name).Places d) := by
  refine grown_settle h (fun fault hr n places => ?_) ?_
  · obtain ⟨placed⟩ := places
    cases hr.symm.trans placed
  · rintro ⟨x, e⟩ hr
    have extended := (Extends.refl h).place hr
    refine ⟨extended.sound, extended.states, fun n => ?_⟩
    rw [placed_of_place hr, List.mem_append, List.mem_singleton]
    refine or_congr_right ⟨?_, fun places => ?_⟩
    · rintro rfl
      exact .place hr
    · cases places
      rfl

theorem grown_draw (h : d.Sound) (statements : List Statement) :
    Grown d ((draw statements).apply d).2 ((draw statements).Places d) := by
  rw [draft_draw]
  have extended := Statement.extends_extendAll statements h
  refine ⟨extended.sound, extended.states, fun n => ?_⟩
  rw [Statement.placed_extendAll_iff statements h]
  refine or_congr_right ⟨.draw, fun places => ?_⟩
  cases places with
  | draw drawn => exact drawn

/-- **What an operation does** to names and labels, whether it fails or not. -/
theorem grown_apply (h : d.Sound) (edit : Edit) : Grown d (edit.apply d).2 (edit.Places d) := by
  cases edit with
  | place name => exact grown_place h name
  | draw statements => exact grown_draw h statements
  | addUnnamed => exact grown_of_states h.addUnnamed (List.prefix_append _ _) rfl nofun
  | addNamed name =>
    refine grown_settle h (fun _ _ => nofun) ?_
    rintro ⟨x, e⟩ hr
    obtain ⟨fresh, -, rfl⟩ := addNamed_eq_ok_iff.mp hr
    exact grown_of_states (h.addState fun m hm => Option.some.inj hm ▸ fresh)
      (List.prefix_append _ _) rfl nofun
  | reserve name =>
    refine grown_of_states (h.reserve name) (states_reserve d name) ?_ nofun
    show (d.reserve name).2.placed = _
    rw [reserve_eq]
  | connect | moveTo | openScope | findState | initial => exact grown_of_eq h rfl rfl nofun
  | closeScope =>
    refine grown_settle h (fun _ _ => nofun) fun e hr => ?_
    unfold Draft.closeScope at hr
    split at hr
    · cases hr
    · cases hr
      exact grown_of_eq h rfl rfl nofun
  | bind name =>
    refine grown_settle h (fun _ _ => nofun) ?_
    rintro ⟨x, e⟩ hr
    obtain ⟨_, _, -, -, -, rfl⟩ := bind_eq_ok_iff.mp hr
    exact grown_of_eq h rfl rfl nofun
  | resolve name => exact grown_settle h (fun _ _ => nofun) fun _ _ => grown_of_eq h rfl rfl nofun

/-! ## Answers -/

/-- An operation that answers a state of this name if it does not fail. -/
theorem mem_of_settle {result : Except Draft.Fault (StateId × Draft)}
    (done : ∀ y e, result = .ok (y, e) → ⟨y, some n⟩ ∈ e.states)
    (answer : (settle d result fun r => (.state (some r.1), r.2)).1 = .ok (.state (some x))) :
    ⟨x, some n⟩ ∈ (settle d result fun r => (.state (some r.1), r.2)).2.states := by
  cases result with
  | error fault => cases answer
  | ok r =>
    obtain rfl : r.1 = x := Option.some.inj (Answer.state.inj (Except.ok.inj answer))
    exact done r.1 r.2 rfl

/-- **What an operation answers for a name** is the state of this name. -/
theorem Answers.mem (answers : edit.Answers d n x) : ⟨x, some n⟩ ∈ (edit.apply d).2.states := by
  obtain ⟨asked, answer⟩ := answers
  cases edit with
  | findState name =>
    cases asked
    exact mem_of_stateNamed? (Answer.state.inj (Except.ok.inj answer))
  | reserve name =>
    cases asked
    cases answer
    exact mem_reserve d n
  | place name =>
    cases asked
    refine mem_of_settle (fun y e hr => ?_) answer
    obtain ⟨-, rfl, rfl⟩ := place_eq_ok_iff.mp hr
    exact mem_reserve d n
  | addNamed name =>
    cases asked
    refine mem_of_settle (fun y e hr => ?_) answer
    obtain ⟨-, rfl, rfl⟩ := addNamed_eq_ok_iff.mp hr
    exact List.mem_append_right _ (List.mem_singleton_self _)
  | _ => cases asked

/-! ## Histories -/

/-- At some moment of the history an operation had the property on the draft as it was then. -/
inductive Happened (P : Edit → Draft → Prop) : List Edit → Draft → Prop
  | now {edit rest d} (h : P edit d) : Happened P (edit :: rest) d
  | later {edit rest d} (h : Happened P rest (edit.apply d).2) : Happened P (edit :: rest) d

variable {edits : List Edit}

theorem happened_cons_iff {P : Edit → Draft → Prop} {rest : List Edit} :
    Happened P (edit :: rest) d ↔ P edit d ∨ Happened P rest (edit.apply d).2 := by
  constructor
  · intro h
    cases h with
    | now h => exact Or.inl h
    | later h => exact Or.inr h
  · rintro (h | h)
    · exact .now h
    · exact .later h

/-- An operation of the history answered this state for this name. -/
def Answered (edits : List Edit) (d : Draft) (name : String) (id : StateId) : Prop :=
  Happened (fun edit d => edit.Answers d name id) edits d

/-- An operation of the history placed a label of this name. -/
def Placed (edits : List Edit) (d : Draft) (name : String) : Prop :=
  Happened (fun edit d => edit.Places d name) edits d

theorem placed_cons_iff {rest : List Edit} : Placed (edit :: rest) d n ↔
    edit.Places d n ∨ Placed rest (edit.apply d).2 n :=
  happened_cons_iff

/-- **What a history does** to names and labels. -/
theorem grown_run (edits : List Edit) : ∀ {d : Draft}, d.Sound →
    Grown d (run edits d) (Placed edits d) := by
  induction edits with
  | nil => exact fun h => grown_of_eq h rfl rfl nofun
  | cons edit rest ih =>
    intro d h
    have first := grown_apply h edit
    have others := ih first.sound
    refine ⟨others.sound, first.states.trans others.states, fun n => ?_⟩
    rw [placed_cons_iff, ← or_assoc, ← first.placed n]
    exact others.placed n

/-- What was ever answered for a name is the state of this name. -/
theorem Answered.mem (answered : Answered edits d n x) (h : d.Sound) :
    ⟨x, some n⟩ ∈ (run edits d).states := by
  induction answered with
  | @now edit rest d answers =>
    exact (grown_run rest (grown_apply h edit).sound).states.subset answers.mem
  | later _ ih => exact ih (grown_apply h _).sound

end Edit

end ProtocolGraph
