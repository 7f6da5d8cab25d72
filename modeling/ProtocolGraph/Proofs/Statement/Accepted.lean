import ProtocolGraph.Proofs.Declaration.Graph
import ProtocolGraph.Proofs.Statement.Spelling

/-!
# The bodies that are accepted

Whether a body can be drawn and completed is known from the body alone:

* every node in it is a statement (`Node.IsStatement`);
* statements other than labels stand where control may come (`Stands`, `StandAll`);
* no label is placed twice, and the start label only in front of the body;
* labels that are jumped to are placed, unless this is tolerated.

`exists_draws_iff` and `exists_drawsAll_iff` are the induction, over one statement and over a list.
**`accepted_iff`** is the result for nodes drawn into the empty draft, in the terms of the body that
they spell.
-/

namespace ProtocolGraph

namespace Statement

open Draft

/-- Inside the statement control comes wherever a statement other than a label stands, when `here`
says whether it comes to the statement itself. -/
def Stands (here : Bool) : Statement → Prop
  | .label _ => True
  | .branch _ consequent => here ∧ consequent.Stands true
  | .branchElse _ consequent alternative =>
    here ∧ consequent.Stands true ∧ alternative.Stands true
  | .send _ _ | .receive _ | .jump _ | .misread _ _ | .foreign _ => here

/-- Control comes wherever a statement other than a label stands in the list, when `here` says
whether it comes to the start of the list. -/
def StandAll (here : Bool) : List Statement → Prop
  | [] => True
  | s :: rest => s.Stands here ∧ StandAll s.goesOn rest

/-- The labels differ from each other and from those that are placed. -/
def Fresh (placed : List String) (names : List String) : Prop :=
  names.Nodup ∧ ∀ n ∈ names, n ∉ placed

variable {s : Statement} {body : List Statement} {d e : Draft} {x : StateId} {n : String}

theorem fresh_append_iff {placed as bs : List String} :
    Fresh placed (as ++ bs) ↔ Fresh placed as ∧ Fresh (placed ++ as) bs := by
  unfold Fresh
  rw [List.nodup_append]
  constructor
  · rintro ⟨⟨ha, hb, apart⟩, new⟩
    refine ⟨⟨ha, fun n hn => new n (List.mem_append_left _ hn)⟩, hb, fun n hn hp => ?_⟩
    rcases List.mem_append.mp hp with hp | hp
    · exact new n (List.mem_append_right _ hn) hp
    · exact apart n hp n hn rfl
  · rintro ⟨⟨ha, new⟩, hb, new'⟩
    refine ⟨⟨ha, hb, ?_⟩, fun n hn hp => ?_⟩
    · rintro n hn _ hm rfl
      exact new' n hm (List.mem_append_right _ hn)
    · rcases List.mem_append.mp hn with hn | hn
      · exact new n hn hp
      · exact new' n hn (List.mem_append_left _ hp)

theorem fresh_empty_iff {names : List String} :
    Fresh Draft.empty.placed names ↔ (startLabel :: names).Nodup := by
  unfold Fresh
  rw [List.nodup_cons, and_comm]
  refine and_congr_left fun _ => ⟨fun h hs => h _ hs (List.mem_singleton_self _), ?_⟩
  intro h n hn hp
  rw [List.mem_singleton.mp hp] at hn
  exact h hn

/-! ## One statement -/

theorem exists_draws_label_iff : (∃ e, Draws (.label n) d e) ↔ n ∉ d.placed := by
  constructor
  · rintro ⟨e, drawn⟩
    obtain ⟨x, f, placed, -⟩ := draws_label_iff.mp drawn
    exact (place_eq_ok_iff.mp placed).1
  · exact fun hn => ⟨_, .label (place_eq_ok_iff.mpr ⟨hn, rfl, rfl⟩)⟩

/-- A statement that only asks for an end of the path can be drawn where there is one. -/
theorem exists_draws_simple {draw : StateId → Draft}
    (simple : ∀ e, Draws s d e ↔ ∃ x, d.current = some x ∧ e = draw x) (meaning : s.Meaningful)
    (stands : s.Stands d.current.isSome = (d.current.isSome = true)) (silent : s.labels = []) :
    (∃ e, Draws s d e) ↔ s.Meaningful ∧ s.Stands d.current.isSome ∧ Fresh d.placed s.labels := by
  rw [stands, silent, Option.isSome_iff_exists]
  constructor
  · rintro ⟨e, drawn⟩
    obtain ⟨x, here, -⟩ := (simple e).mp drawn
    exact ⟨meaning, ⟨x, here⟩, List.nodup_nil, by simp⟩
  · rintro ⟨-, ⟨x, here⟩, -⟩
    exact ⟨draw x, (simple _).mpr ⟨x, here, rfl⟩⟩

/-- **A statement can be drawn** when it has a meaning, control comes where it must, and its labels
are fresh. -/
theorem exists_draws_iff (s : Statement) : ∀ {d : Draft},
    (∃ e, Draws s d e) ↔ s.Meaningful ∧ s.Stands d.current.isSome ∧ Fresh d.placed s.labels := by
  induction s with
  | label name =>
    intro d
    rw [exists_draws_label_iff]
    simp [Meaningful, Stands, labels, Fresh]
  | send message valuation =>
    exact fun {d} => exists_draws_simple (fun _ => draws_send_iff) trivial rfl rfl
  | receive message =>
    exact fun {d} => exists_draws_simple (fun _ => draws_receive_iff) trivial rfl rfl
  | jump target =>
    exact fun {d} => exists_draws_simple (fun _ => draws_jump_iff) trivial rfl rfl
  | branch guard consequent ih =>
    intro d
    constructor
    · rintro ⟨_, drawn⟩
      obtain ⟨x, here, e, inner, -⟩ := draws_branch_iff.mp drawn
      obtain ⟨meaning, stands, fresh⟩ := ih.mp ⟨e, inner⟩
      exact ⟨meaning, ⟨Option.isSome_iff_exists.mpr ⟨x, here⟩, stands⟩, fresh⟩
    · rintro ⟨meaning, ⟨here, stands⟩, fresh⟩
      obtain ⟨x, here⟩ := Option.isSome_iff_exists.mp here
      obtain ⟨e, inner⟩ := (ih (d := d.step x (.entering guard))).mpr ⟨meaning, stands, fresh⟩
      exact ⟨_, .branch here inner⟩
  | branchElse guard consequent alternative ihc iha =>
    intro d
    constructor
    · rintro ⟨_, drawn⟩
      obtain ⟨x, here, e, first, f, second, -⟩ := draws_branchElse_iff.mp drawn
      obtain ⟨meaning, stands, fresh⟩ := ihc.mp ⟨e, first⟩
      obtain ⟨meaning', stands', fresh'⟩ := iha.mp ⟨f, second⟩
      have placed : (e.step x (.passing guard)).placed = d.placed ++ consequent.labels :=
        first.placed_eq
      rw [placed] at fresh'
      exact ⟨⟨meaning, meaning'⟩, ⟨Option.isSome_iff_exists.mpr ⟨x, here⟩, stands, stands'⟩,
        fresh_append_iff.mpr ⟨fresh, fresh'⟩⟩
    · rintro ⟨⟨meaning, meaning'⟩, ⟨here, stands, stands'⟩, fresh⟩
      obtain ⟨x, here⟩ := Option.isSome_iff_exists.mp here
      obtain ⟨fresh, fresh'⟩ := fresh_append_iff.mp fresh
      obtain ⟨e, first⟩ := (ihc (d := d.step x (.entering guard))).mpr ⟨meaning, stands, fresh⟩
      have placed : (e.step x (.passing guard)).placed = d.placed ++ consequent.labels :=
        first.placed_eq
      rw [← placed] at fresh'
      obtain ⟨f, second⟩ :=
        (iha (d := e.step x (.passing guard))).mpr ⟨meaning', stands', fresh'⟩
      exact ⟨_, .branchElse here first second⟩
  | misread form cause =>
    intro d
    constructor
    · rintro ⟨_, drawn⟩
      exact (not_draws_misread drawn).elim
    · exact fun h => h.1.elim
  | foreign cause =>
    intro d
    constructor
    · rintro ⟨_, drawn⟩
      exact (not_draws_foreign drawn).elim
    · exact fun h => h.1.elim

/-! ## Lists of statements -/

/-- **Statements can be drawn one after the other** when each has a meaning, control comes where it
must, and their labels are fresh. -/
theorem exists_drawsAll_iff (body : List Statement) : ∀ {d : Draft}, (∃ e, DrawsAll body d e) ↔
    (∀ s ∈ body, s.Meaningful) ∧ StandAll d.current.isSome body ∧
      Fresh d.placed (body.flatMap labels) := by
  induction body with
  | nil =>
    refine fun {d} => ⟨fun _ => ⟨by simp, trivial, List.nodup_nil, by simp⟩, fun _ => ⟨d, .nil⟩⟩
  | cons s rest ih =>
    intro d
    rw [List.forall_mem_cons, List.flatMap_cons, fresh_append_iff]
    constructor
    · rintro ⟨f, drawn⟩
      cases drawn with
      | cons head tail =>
        obtain ⟨meaning, stands, fresh⟩ := (exists_draws_iff s).mp ⟨_, head⟩
        obtain ⟨meanings, stands', fresh'⟩ := ih.mp ⟨f, tail⟩
        rw [head.isSome_current] at stands'
        rw [head.placed_eq] at fresh'
        exact ⟨⟨meaning, meanings⟩, ⟨stands, stands'⟩, fresh, fresh'⟩
    · rintro ⟨⟨meaning, meanings⟩, ⟨stands, stands'⟩, fresh, fresh'⟩
      obtain ⟨e, head⟩ := (exists_draws_iff s).mpr ⟨meaning, stands, fresh⟩
      rw [← head.isSome_current] at stands'
      rw [← head.placed_eq] at fresh'
      obtain ⟨f, tail⟩ := ih.mpr ⟨meanings, stands', fresh'⟩
      exact ⟨f, .cons head tail⟩

theorem standAll_afterStart (body : List Statement) :
    StandAll true (afterStart body) ↔ StandAll true body :=
  iff_of_eq (afterStart_invariant (StandAll true) (fun _ => propext (and_iff_right trivial)) body)

theorem meaningful_afterStart (body : List Statement) :
    (∀ s ∈ afterStart body, s.Meaningful) ↔ ∀ s ∈ body, s.Meaningful := by
  have idle : ∀ rest,
      (∀ s ∈ label startLabel :: rest, s.Meaningful) = ∀ s ∈ rest, s.Meaningful := by
    intro rest
    rw [List.forall_mem_cons]
    exact propext (and_iff_right trivial)
  exact iff_of_eq (afterStart_invariant (fun body => ∀ s ∈ body, s.Meaningful) idle body)

/-! ## Bodies -/

theorem exists_finish_iff {leniency : Leniency} {name : Option String} :
    (∃ p, d.finish leniency name = .ok p) ↔
      leniency.unplacedLabels = true ∨ ∀ n ∈ d.names, n ∈ d.placed := by
  rw [← unplaced_eq_nil_iff]
  unfold finish
  cases leniency.unplacedLabels with
  | true => simp
  | false => cases d.unplaced <;> simp

theorem DrawsAll.mem_placed_iff (drawn : DrawsAll (afterStart body) Draft.empty e) :
    n ∈ e.placed ↔ n = startLabel ∨ n ∈ body.flatMap labels := by
  rw [drawn.placed_eq, List.mem_append]
  by_cases hn : n = startLabel
  · exact ⟨fun _ => Or.inl hn, fun _ => Or.inl (List.mem_singleton.mpr hn)⟩
  · rw [mem_labels_afterStart hn]
    exact or_congr_left List.mem_singleton

/-- The labels that a body reserves are all placed when those that it jumps to are. -/
theorem DrawsAll.names_placed_iff (drawn : DrawsAll (afterStart body) Draft.empty e) :
    (∀ n ∈ e.names, n ∈ e.placed) ↔
      ∀ n ∈ body.flatMap targets, n = startLabel ∨ n ∈ body.flatMap labels := by
  constructor
  · intro h n hn
    rw [← targets_afterStart] at hn
    exact drawn.mem_placed_iff.mp (h n (drawn.mem_names_iff.mpr (Or.inr (Or.inr hn))))
  · intro h n hn
    rcases drawn.mem_names_iff.mp hn with hs | hl | ht
    · exact drawn.mem_placed_iff.mpr (Or.inl (List.mem_singleton.mp hs))
    · rw [drawn.placed_eq]
      exact List.mem_append_right _ hl
    · rw [targets_afterStart] at ht
      exact drawn.mem_placed_iff.mpr (h n ht)

/-- Nodes that can be drawn from the initial state spell what is drawn. -/
theorem spells_of_extendAll {nodes : List Node}
    (drawn : extendAll (nodes.map ofNode) Draft.empty = .done d) :
    List.Forall₂ Node.Spells nodes (nodes.map ofNode) := by
  obtain ⟨meaning, -, -⟩ := (exists_drawsAll_iff _).mp ⟨d, extendAll_empty_eq_done_iff.mp drawn⟩
  exact Node.forall₂_spells_iff.mpr ⟨rfl, (meaningful_afterStart _).mp meaning⟩

/-- Statements with a meaning can be drawn from the initial state when control comes where it must,
no label is placed twice and the start label only in front. -/
theorem exists_extendAll_iff (meaning : ∀ s ∈ body, s.Meaningful) :
    (∃ d, extendAll body Draft.empty = .done d) ↔
      StandAll true body ∧ (startLabel :: (afterStart body).flatMap labels).Nodup := by
  simp only [extendAll_empty_eq_done_iff]
  rw [exists_drawsAll_iff, meaningful_afterStart, fresh_empty_iff, and_iff_right meaning]
  exact and_congr_left' (standAll_afterStart body)

/-- **The bodies that are accepted.** Nodes can be drawn from the initial state, and the draft can
be completed, exactly when all are statements and, in the body that they spell, control comes
wherever a statement other than a label stands, no label is placed twice and the start label only in
front, and the labels that are jumped to are placed unless this is tolerated. -/
theorem accepted_iff (leniency : Leniency) (name : Option String) (nodes : List Node) :
    (∃ d p, extendAll (nodes.map ofNode) Draft.empty = .done d ∧ d.finish leniency name = .ok p) ↔
      (∀ n ∈ nodes, n.IsStatement) ∧ ∃ body, List.Forall₂ Node.Spells nodes body ∧
        StandAll true body ∧ (startLabel :: (afterStart body).flatMap labels).Nodup ∧
        (leniency.unplacedLabels = true ∨
          ∀ n ∈ body.flatMap targets, n = startLabel ∨ n ∈ body.flatMap labels) := by
  constructor
  · rintro ⟨d, p, drawn, finished⟩
    have spelt := spells_of_extendAll drawn
    have meaning := (Node.forall₂_spells_iff.mp spelt).2
    obtain ⟨stands, fresh⟩ := (exists_extendAll_iff meaning).mp ⟨d, drawn⟩
    have complete := exists_finish_iff.mp ⟨p, finished⟩
    have derived := extendAll_empty_eq_done_iff.mp drawn
    refine ⟨fun n hn => ?_, _, spelt, stands, fresh, complete.imp_right derived.names_placed_iff.mp⟩
    exact (Node.isStatement_iff n).mpr (meaning _ (List.mem_map_of_mem hn))
  · rintro ⟨-, body, spelt, stands, fresh, complete⟩
    obtain ⟨rfl, meaning⟩ := Node.forall₂_spells_iff.mp spelt
    obtain ⟨d, drawn⟩ := (exists_extendAll_iff meaning).mpr ⟨stands, fresh⟩
    have derived := extendAll_empty_eq_done_iff.mp drawn
    obtain ⟨p, finished⟩ := exists_finish_iff.mpr (complete.imp_right derived.names_placed_iff.mpr)
    exact ⟨d, p, drawn, finished⟩

end Statement

end ProtocolGraph
