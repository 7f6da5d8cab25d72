import ProtocolGraph.Proofs.Draft.Move
import ProtocolGraph.Proofs.Node.Derivation
import ProtocolGraph.Proofs.Statement.Reading

/-!
# Room for states

A statement creates states when it is drawn: one where it leads to, and more if it branches. How
many these can be is known from its tokens.

* `Statement.room`: as many states the statement may create.
* **`Statement.length_states_extend_le`**: it creates no more, whether it is drawn to its end or
  not.
* **`Node.Derives.room_le`**: it is read from as many tokens at least.
-/

namespace ProtocolGraph

namespace Statement

/-- As many states at most are created when the statement is drawn. -/
def room : Statement → Nat
  | .label _ | .send _ _ | .receive _ | .jump _ => 1
  | .branch _ consequent => consequent.room + 2
  | .branchElse _ consequent alternative => consequent.room + alternative.room + 3
  | .misread _ _ | .foreign _ => 0

/-- As many states at most are created when statements are drawn one after the other. -/
def roomAll : List Statement → Nat
  | [] => 0
  | s :: rest => s.room + roomAll rest

end Statement

namespace Draft

variable {d : Draft} {a : Attempt} {bound : Nat}

theorem length_states_step (source : StateId) (label : Label) (d : Draft) :
    (d.step source label).states.length = d.states.length + 1 :=
  List.length_append

theorem length_states_reserve_le (name : String) (d : Draft) :
    (d.reserve name).2.states.length ≤ d.states.length + 1 := by
  rcases reserve_cases d name with ⟨-, same⟩ | ⟨-, -, more⟩
  · rw [same]
    exact Nat.le_succ _
  · rw [more]
    exact Nat.le_of_eq List.length_append

theorem length_states_join_le (a b : Option StateId) (d : Draft) :
    (d.join a b).states.length ≤ d.states.length + 1 := by
  rw [states_join, List.length_append]
  split <;> simp

theorem length_states_placeHere_le (name : String) (d : Draft) :
    (d.placeHere name).draft.states.length ≤ d.states.length + 1 := by
  unfold placeHere
  split
  · exact Nat.le_succ _
  · cases placed : d.place name with
    | error fault => exact Nat.le_succ _
    | ok r =>
      obtain ⟨-, -, heq⟩ := place_eq_ok_iff.mp placed
      show ((r.2.connectFrom _ _ _).moveTo _).states.length ≤ _
      rw [moveTo, states_connectFrom, heq]
      exact length_states_reserve_le name d

theorem length_states_fromHere_le {statement : String} {work : StateId → Attempt}
    (before : d.states.length ≤ bound) (after : ∀ x, (work x).draft.states.length ≤ bound) :
    (d.fromHere statement work).draft.states.length ≤ bound := by
  unfold fromHere
  cases d.current with
  | none => exact before
  | some x => exact after x

theorem length_states_andThen_le {next : Draft → Attempt} (before : a.draft.states.length ≤ bound)
    (after : (next a.draft).draft.states.length ≤ bound) :
    (a.andThen next).draft.states.length ≤ bound := by
  unfold Attempt.andThen
  cases a.failure with
  | none => exact after
  | some f => exact before

end Draft

namespace Statement

open Draft

/-- **Drawing a statement** creates no more states than it has room for, whether it fails or
not. -/
theorem length_states_extend_le (s : Statement) : ∀ d : Draft,
    (s.extend d).draft.states.length ≤ d.states.length + s.room := by
  induction s with
  | label name => exact length_states_placeHere_le name
  | send message valuation =>
    exact fun d => length_states_fromHere_le (Nat.le_succ _) fun x =>
      Nat.le_of_eq (length_states_step x _ d)
  | receive message =>
    exact fun d => length_states_fromHere_le (Nat.le_succ _) fun x =>
      Nat.le_of_eq (length_states_step x _ d)
  | jump target =>
    exact fun d => length_states_fromHere_le (Nat.le_succ _) fun x =>
      length_states_reserve_le target d
  | branch guard consequent ih =>
    intro d
    unfold room
    refine length_states_fromHere_le (Nat.le_add_right _ _) fun x => ?_
    have entered := length_states_step x (.entering guard) d
    have drawn := ih (d.step x (.entering guard))
    rw [Attempt.draft_within]
    refine length_states_andThen_le (by omega) ?_
    have joined := length_states_join_le
      (consequent.extend (d.step x (.entering guard))).draft.current none
      (consequent.extend (d.step x (.entering guard))).draft
    exact Nat.le_trans joined (by omega)
  | branchElse guard consequent alternative ihc iha =>
    intro d
    unfold room
    refine length_states_fromHere_le (Nat.le_add_right _ _) fun x => ?_
    have entered := length_states_step x (.entering guard) d
    have first := ihc (d.step x (.entering guard))
    rw [Attempt.draft_within]
    refine length_states_andThen_le (by omega) ?_
    generalize (consequent.extend (d.step x (.entering guard))).draft = e at first
    have passed := length_states_step x (.passing guard) e
    have second := iha (e.step x (.passing guard))
    refine length_states_andThen_le (by omega) ?_
    generalize (alternative.extend (e.step x (.passing guard))).draft = f at second
    exact Nat.le_trans (length_states_join_le e.current f.current f) (by omega)
  | misread form cause =>
    exact fun d => length_states_fromHere_le (Nat.le_refl _) fun _ => Nat.le_refl _
  | foreign cause => exact fun d => Nat.le_refl _

theorem length_states_extendAll_le (body : List Statement) : ∀ d : Draft,
    (extendAll body d).draft.states.length ≤ d.states.length + roomAll body := by
  induction body with
  | nil => exact fun d => Nat.le_refl _
  | cons s rest ih =>
    intro d
    have first := length_states_extend_le s d
    have others := ih (s.extend d).draft
    rw [roomAll]
    exact length_states_andThen_le (by omega) (Nat.le_trans others (by omega))

/-! ## States and tokens -/

theorem room_ofForm_le (f : Form) : (ofForm f).room ≤ 1 := by
  rcases ofForm_cases f with ⟨_, _, h⟩ | ⟨_, h⟩ | ⟨_, h⟩ | ⟨_, h⟩ | ⟨_, h⟩ <;> simp [h, room]

theorem room_guarded_le {guard : Node} {statement : Expression → Statement} {bound : Nat}
    (h : ∀ e, (statement e).room ≤ bound) : (guarded guard statement).room ≤ bound := by
  unfold guarded
  split
  · exact Nat.zero_le _
  · exact h _

end Statement

namespace Node

open Statement

variable {n : Node} {ns : List Node} {ts : List Token}

/-- **A statement has room** for no more states than the tokens that it is read from. -/
theorem Derives.room_le (h : Derives n ts) : (ofNode n).room ≤ ts.length := by
  fun_induction ofNode n generalizing ts with
  | case1 name => exact h.length_pos
  | case2 => exact Nat.zero_le _
  | case3 => exact Nat.zero_le _
  | case4 guard => exact room_guarded_le fun _ => Nat.zero_le _
  | case5 guard consequent ih =>
    obtain ⟨inner, derived, length⟩ := h.exists_inner
    simp only [derivesAll_cons_iff] at derived
    obtain ⟨name, _, rfl, -, condition, _, rfl, -, first, others, rfl, hc, -⟩ := derived
    refine room_guarded_le fun e => ?_
    have consequent_le := ih hc
    simp only [List.length_append] at length
    rw [room]
    omega
  | case6 guard consequent alternative ihc iha =>
    obtain ⟨inner, derived, length⟩ := h.exists_inner
    simp only [derivesAll_cons_iff] at derived
    obtain ⟨name, _, rfl, hname, condition, _, rfl, -, first, _, rfl, hc, second, others, rfl,
      ha, -⟩ := derived
    refine room_guarded_le fun e => ?_
    have name_pos := hname.length_pos
    have consequent_le := ihc hc
    have alternative_le := iha ha
    simp only [List.length_append] at length
    rw [room]
    omega
  | case7 => exact room_guarded_le fun _ => Nat.zero_le _
  | case8 name arguments => exact Nat.le_trans (room_ofForm_le _) h.length_pos
  | case9 => exact Nat.zero_le _
  | case10 => exact Nat.zero_le _

theorem DerivesAll.roomAll_le (h : DerivesAll ns ts) : roomAll (ns.map ofNode) ≤ ts.length := by
  induction ns generalizing ts with
  | nil => exact Nat.zero_le _
  | cons n ns ih =>
    obtain ⟨us, vs, rfl, head, tail⟩ := derivesAll_cons_iff.mp h
    rw [List.map_cons, roomAll, List.length_append]
    exact Nat.add_le_add head.room_le (ih tail)

end Node

end ProtocolGraph
