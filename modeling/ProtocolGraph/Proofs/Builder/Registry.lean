import ProtocolGraph.Proofs.Builder.Operation
import ProtocolGraph.Proofs.Draft.Registry
import ProtocolGraph.Proofs.Statement.Failing

/-!
# Names are given once

A builder is a registry of names: each name belongs to one state at most, and it is declared at most
once. A builder keeps this in four places, the counter, the states, the table of names and the set
of declared names, and nothing but its operations makes these agree. They do through every history
of a builder, in whatever order states are created, names are reserved, declared and looked up,
while nodes are translated that may fail half way and the end of the path is moved anywhere.

* `Builder.Agrees`: the four belong together.
* `Node.Declares`: translating the node declares a label on the way.
  `Node.declares_builder_iff`: these are the labels that its statement places.
* `Builder.Happened`: at some moment of a history an operation of a certain kind was carried out.
  `Builder.happened_iff` takes this to the history of the draft.
* **`Builder.names_given_once`**: what the answers about names have to do with each other and with
  the states, and when there is none.
-/

namespace ProtocolGraph

open Draft (startLabel)

/-! ## Labels that are declared on the way -/

/-- Translating the node declares a label of this name on the way, whether it fails later or not. -/
inductive Node.Declares : Node → Builder → String → Prop
  | label {b c name x} (elsewhere : ¬(name = startLabel ∧ b.current = some b.initial))
      (declared : b.declareLabel name = (.ok x, c)) : Declares (.keyword name) b name
  | consequent {b x guard condition n others name} (read : Expression.ofNode guard = .ok condition)
      (few : others.length ≤ 1) (here : b.current = some x)
      (inside : Declares n (b.enter x (.entering condition)) name) :
      Declares (.list (.symbol "if" :: guard :: n :: others)) b name
  | alternative {b c x guard condition n other name}
      (read : Expression.ofNode guard = .ok condition) (here : b.current = some x)
      (first : (Building.translate n).outcome (b.enter x (.entering condition)) = (.ok (), c))
      (inside : Declares other ((c.setCurrent (some x)).enter x (.passing condition)) name) :
      Declares (.list [.symbol "if", guard, n, other]) b name

namespace Draft

variable {d e : Draft} {x : StateId} {name : String}

theorem declareLabel_builder_eq_ok {c : Builder} (h : d.builder.declareLabel name = (.ok x, c)) :
    ∃ e, d.place name = .ok (x, e) ∧ c = e.builder := by
  rw [declareLabel_builder] at h
  cases placed : d.place name with
  | error fault =>
    rw [placed] at h
    cases h
  | ok r =>
    rw [placed] at h
    cases h
    exact ⟨r.2, rfl, rfl⟩

theorem translate_builder_eq_ok {n : Node} {c : Builder}
    (h : (Building.translate n).outcome d.builder = (.ok (), c)) :
    ∃ e, (Statement.ofNode n).extend d = .done e ∧ c = e.builder := by
  rw [Building.outcome_translate] at h
  generalize (Statement.ofNode n).extend d = a at h
  obtain ⟨e, _ | f⟩ := a
  · exact ⟨e, rfl, (Prod.mk.inj h).2.symm⟩
  · cases h

end Draft

namespace Statement

variable {d : Draft} {name : String} {s : Statement}

/-- A form that is no branch contains no labels. -/
theorem not_places_ofForm (f : Form) : ¬(ofForm f).Places d name := by
  rcases ofForm_cases f with ⟨_, _, h⟩ | ⟨_, h⟩ | ⟨_, h⟩ | ⟨_, h⟩ | ⟨_, h⟩ <;> rw [h]
  all_goals exact nofun

end Statement

namespace Node

open Statement Draft

variable {d : Draft} {n : Node} {name : String}

theorem Declares.places {b : Builder} (h : n.Declares b name) :
    ∀ d : Draft, b = d.builder → (ofNode n).Places d name := by
  induction h with
  | label _ declared =>
    rintro d rfl
    obtain ⟨e, placed, -⟩ := declareLabel_builder_eq_ok declared
    exact .label placed
  | @consequent b x guard condition n others name read few here inside ih =>
    rintro d rfl
    rw [Building.enter_builder] at ih
    have inner := ih _ rfl
    rcases others with _ | ⟨alternative, _ | _⟩
    · rw [ofNode_branch read]
      exact .branch here inner
    · rw [ofNode_branchElse read]
      exact .consequent here inner
    · simp at few
  | @alternative b c x guard condition n other name read here first inside ih =>
    rintro d rfl
    rw [Building.enter_builder] at first
    obtain ⟨e, drawn, rfl⟩ := translate_builder_eq_ok first
    rw [ofNode_branchElse read]
    refine .alternative here drawn (ih _ ?_)
    exact Building.enter_builder x _ (e.moveTo (some x))

/-- A label that a branch places is declared in one of its alternatives. -/
theorem Declares.of_places_if {arguments : List Node} (sound : d.Sound)
    (ih : ∀ n ∈ arguments, ∀ {d : Draft}, d.Sound → (ofNode n).Places d name →
      n.Declares d.builder name)
    (places : (ofNode (.list (.symbol "if" :: arguments))).Places d name) :
    (list (.symbol "if" :: arguments)).Declares d.builder name := by
  rcases arguments with _ | ⟨guard, rest⟩
  · cases places
  · cases read : Expression.ofNode guard with
    | error kind =>
      rw [ofNode_unguarded read] at places
      cases places
    | ok condition =>
      have entered : ∀ x n, n ∈ guard :: rest →
          (ofNode n).Places (d.step x (.entering condition)) name →
          n.Declares (d.builder.enter x (.entering condition)) name := by
        intro x n hn inner
        rw [Building.enter_builder]
        exact ih n hn (sound.step x _) inner
      rcases rest with _ | ⟨consequent, _ | ⟨alternative, _ | ⟨extra, others⟩⟩⟩
      · rw [ofNode, guarded, read] at places
        cases places
      · rw [ofNode_branch read] at places
        obtain ⟨x, here, inner⟩ := places_branch_iff.mp places
        exact .consequent read (Nat.zero_le 1) here (entered x _ (by simp) inner)
      · rw [ofNode_branchElse read] at places
        obtain ⟨x, here, inner | ⟨e, drawn, inner⟩⟩ := places_branchElse_iff.mp places
        · exact .consequent read (Nat.le_refl 1) here (entered x _ (by simp) inner)
        · have first := Building.outcome_translate consequent (d.step x (.entering condition))
          rw [drawn, ← Building.enter_builder] at first
          refine .alternative read here first ?_
          show alternative.Declares ((e.moveTo (some x)).builder.enter x _) name
          rw [Building.enter_builder]
          exact ih alternative (by simp) ((sound_of_extend (sound.step x _) drawn).step x _) inner
      · rw [ofNode, guarded, read] at places
        · cases places
        · exact List.cons_ne_nil extra others

theorem Declares.of_places (n : Node) : ∀ {d : Draft}, d.Sound → (ofNode n).Places d name →
    n.Declares d.builder name := by
  induction n using Node.induction with
  | keyword found =>
    intro d sound places
    cases places with
    | label placed =>
      have declared := declareLabel_builder name d
      rw [placed] at declared
      refine .label ?_ declared
      rintro ⟨rfl, -⟩
      exact (place_eq_ok_iff.mp placed).1 sound.start_placed
  | list elements ih =>
    intro d sound places
    rcases elements with _ | ⟨head, arguments⟩
    · cases places
    · cases head with
      | symbol form =>
        by_cases branching : form = "if"
        · subst branching
          exact .of_places_if sound (fun n hn => ih n (List.mem_cons_of_mem _ hn)) places
        · rw [ofNode_of_ne branching] at places
          exact (not_places_ofForm _ places).elim
      | _ => cases places
  | _ =>
    intro d _ places
    cases places

/-- **The labels that translating a node declares** are those that its statement places. -/
theorem declares_builder_iff (sound : d.Sound) :
    n.Declares d.builder name ↔ (ofNode n).Places d name :=
  ⟨fun h => h.places d rfl, .of_places n sound⟩

end Node

/-! ## Agreement -/

namespace Builder

open Draft
open Edit (Answer)

/-- The counter, the states, the table of names and the declared names belong together. -/
structure Agrees (b : Builder) : Prop where
  /-- The next number is that of one state more. -/
  counted : b.nextState = b.states.length + 1
  /-- States are numbered from one in their order. -/
  numbered : ∀ i (h : i < b.states.length), b.states[i].id = i + 1
  /-- The table has one entry for each name. -/
  keys : (b.named.map Prod.fst).Nodup
  /-- What is found in the table are the states that have names. -/
  named : ∀ n x, b.stateForName n = some x ↔ ⟨x, some n⟩ ∈ b.states
  /-- Declared names are the names of states. -/
  declared : ∀ n ∈ b.declared, ∃ x, b.stateForName n = some x

variable {d : Draft} {n m : String} {x y : StateId}

theorem agrees_builder (h : d.Sound) : d.builder.Agrees where
  counted := rfl
  numbered := h.numbered
  keys := by
    rw [map_fst_named]
    exact h.names
  named := fun n x => by
    rw [stateForName, lookup_named]
    exact h.stateNamed?_eq_some_iff
  declared := fun n hn => by
    obtain ⟨x, hx⟩ := mem_names.mp (h.placed n hn)
    refine ⟨x, ?_⟩
    rw [stateForName, lookup_named]
    exact h.stateNamed?_eq_some_iff.mpr hx

/-! ## Operations -/

/-- The name that an operation asks for the state of. -/
def Operation.name? : Operation → Option String
  | allocNamedState name | stateForName name | declareLabel name | jumpTarget name => some name
  | _ => none

/-- The operation on the builder answers this state for this name. -/
def Operation.Answers (op : Operation) (b : Builder) (name : String) (id : StateId) : Prop :=
  op.name? = some name ∧ (op.apply b).1 = .ok (.state (some id))

/-- The operation on the builder declares a label of this name, by itself or on the way when it
translates a node. -/
inductive Operation.Declares : Operation → Builder → String → Prop
  | declareLabel {b c n x} (declared : b.declareLabel n = (.ok x, c)) :
      Declares (declareLabel n) b n
  | translate {b node n} (inside : node.Declares b n) : Declares (translate node) b n

theorem Operation.answers_builder_iff {op : Operation} :
    op.Answers d.builder n x ↔ op.edit.Answers d n x := by
  have asked : op.edit.name? = op.name? := by cases op <;> rfl
  unfold Answers Edit.Answers
  rw [asked, apply_builder]

theorem Operation.declares_builder_iff (sound : d.Sound) {op : Operation} :
    op.Declares d.builder n ↔ op.edit.Places d n := by
  constructor
  · intro h
    cases h with
    | declareLabel declared =>
      obtain ⟨e, placed, -⟩ := declareLabel_builder_eq_ok declared
      exact .place placed
    | translate inside => exact .draw (.head ((Node.declares_builder_iff sound).mp inside))
  · intro h
    cases op with
    | declareLabel name =>
      cases h with
      | place placed =>
        have declared := declareLabel_builder n d
        rw [placed] at declared
        exact .declareLabel declared
    | translate node =>
      cases h with
      | draw drawn =>
        obtain places | ⟨e, -, others⟩ := Statement.placesAll_cons_iff.mp drawn
        · exact .translate ((Node.declares_builder_iff sound).mpr places)
        · cases others
    | _ => cases h

/-! ## Histories -/

/-- At some moment of the history an operation had the property on the builder as it was then. -/
def Happened (P : Operation → Builder → Prop) (ops : List Operation) (b : Builder) : Prop :=
  ∃ before op after, ops = before ++ op :: after ∧ P op (run before b)

theorem happened_cons_iff {P : Operation → Builder → Prop} {op : Operation} {rest : List Operation}
    {b : Builder} : Happened P (op :: rest) b ↔ P op b ∨ Happened P rest (op.apply b).2 := by
  constructor
  · rintro ⟨_ | ⟨first, before⟩, op', after, heq, h⟩
    · cases heq
      exact Or.inl h
    · cases heq
      exact Or.inr ⟨before, op', after, rfl, h⟩
  · rintro (h | ⟨before, op', after, rfl, h⟩)
    · exact ⟨[], op, rest, rfl, h⟩
    · exact ⟨op :: before, op', after, rfl, h⟩

/-- What happened to a builder is what happened to its draft. -/
theorem happened_iff {P : Operation → Builder → Prop} {Q : Edit → Draft → Prop}
    (same : ∀ op (d : Draft), d.Sound → (P op d.builder ↔ Q op.edit d)) (ops : List Operation) :
    ∀ {d : Draft}, d.Sound →
      (Happened P ops d.builder ↔ Edit.Happened Q (ops.map Operation.edit) d) := by
  induction ops with
  | nil =>
    intro d _
    constructor
    · rintro ⟨before, op, after, heq, -⟩
      simp at heq
    · exact nofun
  | cons op rest ih =>
    intro d sound
    rw [happened_cons_iff, List.map_cons, Edit.happened_cons_iff, same op d sound,
      Operation.apply_builder, ih (Edit.grown_apply sound _).sound]

/-- An operation of the history answered this state for this name. -/
def Answered (ops : List Operation) (name : String) (id : StateId) : Prop :=
  Happened (fun op b => op.Answers b name id) ops new

/-- An operation of the history declared a label of this name. -/
def Declared (ops : List Operation) (name : String) : Prop :=
  Happened (fun op b => op.Declares b name) ops new

theorem answered_iff {ops : List Operation} :
    Answered ops n x ↔ Edit.Answered (ops.map Operation.edit) .empty n x :=
  happened_iff (fun _ _ _ => Operation.answers_builder_iff) ops sound_empty

theorem declared_iff {ops : List Operation} :
    Declared ops n ↔ Edit.Placed (ops.map Operation.edit) .empty n :=
  happened_iff (fun _ _ sound => Operation.declares_builder_iff sound) ops sound_empty

/-- What is settled by a draft fails as the draft does. -/
theorem settled_eq_error_iff {α : Type} {result : Except Fault (α × Draft)} {fault : Fault} :
    (d.settled result).1 = .error fault ↔ result = .error fault := by
  cases result <;> simp [settled]

/-- **Names are given once.** After every history of a builder, in which operations may come in any
order and fail, and any nodes may be translated: the counter, the states, the table of names and the
declared names agree. All answers for one name were the same state, which has this name and is still
found under it, and answers for different names were different states. A jump never fails to have a
target. Declaring a label fails exactly when it is `:start` or was declared before, by itself or
when nodes were translated, and creating a state of a name fails exactly when there is one. The
labels that are unresolved are the names of states that were never declared, and they stand in
strictly increasing order of their bytes. -/
theorem names_given_once (ops : List Operation) :
    let b := run ops new
    b.Agrees ∧
    (∀ n x, Answered ops n x → b.stateForName n = some x ∧ ⟨x, some n⟩ ∈ b.states) ∧
    (∀ n m x y, Answered ops n x → Answered ops m y → (x = y ↔ n = m)) ∧
    (∀ n, ∃ x, (b.jumpTarget n).1 = .ok x) ∧
    (∀ n fault, (b.declareLabel n).1 = .error fault ↔
      fault = .duplicateState n ∧ (n = startLabel ∨ Declared ops n)) ∧
    (∀ n fault, (b.allocNamedState n).1 = .error fault ↔
      fault = .duplicateState n ∧ ∃ x, ⟨x, some n⟩ ∈ b.states) ∧
    b.unresolvedLabels.Pairwise (fun a b => Text.bytes a < Text.bytes b) ∧
    ∀ n, n ∈ b.unresolvedLabels ↔
      (∃ x, ⟨x, some n⟩ ∈ b.states) ∧ n ≠ startLabel ∧ ¬Declared ops n := by
  intro b
  have grown := Edit.grown_run (ops.map Operation.edit) sound_empty
  have held : b = (Edit.run (ops.map Operation.edit) .empty).builder := run_eq ops .empty
  have answered : ∀ n x, Answered ops n x →
      ⟨x, some n⟩ ∈ (Edit.run (ops.map Operation.edit) .empty).states := fun n x h =>
    (answered_iff.mp h).mem sound_empty
  generalize Edit.run (ops.map Operation.edit) .empty = d at grown held answered
  obtain ⟨sound, -, placed⟩ := grown
  have agrees : b.Agrees := held ▸ agrees_builder sound
  have declared : ∀ n, n ∈ d.placed ↔ n = startLabel ∨ Declared ops n := fun n =>
    (placed n).trans (or_congr List.mem_singleton declared_iff.symm)
  rw [held] at agrees ⊢
  refine ⟨agrees, fun n x h => ⟨(agrees.named n x).mpr (answered n x h), answered n x h⟩,
    fun n m x y hx hy => ⟨?_, ?_⟩, fun n => ?_, fun n fault => ?_, fun n fault => ?_, ?_,
    fun n => ?_⟩
  · intro same
    have state := sound.eq_of_id (answered n x hx) (answered m y hy) same
    exact Option.some.inj (congrArg State.name state)
  · rintro rfl
    exact sound.eq_of_name (answered n x hx) (answered n y hy)
  · rw [jumpTarget_builder]
    exact ⟨_, rfl⟩
  · rw [declareLabel_builder, settled_eq_error_iff, place_eq_error_iff, declared]
  · rw [allocNamedState_builder, settled_eq_error_iff, addNamed_eq_error_iff, mem_names]
    rfl
  · rw [unresolvedLabels_builder]
    exact sound.ascending_unplaced
  · rw [unresolvedLabels_builder, mem_unplaced_iff, mem_names, declared, not_or]
    rfl

/-- A label is reserved before it is declared, a branch declares another one and then fails because
its alternative declares it again, and a name is created that is never declared. -/
def declaredTwice : List Operation :=
  [.jumpTarget ":a",
    .translate (.list [.symbol "if", .symbol "ok", .keyword ":b", .keyword ":b"]),
    .setCurrent none, .declareLabel ":a", .allocNamedState ":c"]

theorem names_given_once_declaredTwice :
    ∃ b, run declaredTwice new = b ∧ b.nextState = b.states.length + 1 ∧
      b.stateForName ":a" = some 2 ∧ (2 = 6 ↔ ":a" = ":c") ∧
      (b.declareLabel ":b").1 = .error (.duplicateState ":b") ∧
      (b.allocNamedState ":c").1 = .error (.duplicateState ":c") ∧
      ":b" ∉ b.unresolvedLabels := by
  obtain ⟨agrees, answered, same, -, declareLabel_error, allocNamedState_error, -, unresolved⟩ :=
    names_given_once declaredTwice
  have given_a : Answered declaredTwice ":a" 2 := ⟨[], .jumpTarget ":a", _, rfl, rfl, rfl⟩
  have given_c : Answered declaredTwice ":c" 6 := by
    refine ⟨declaredTwice.take 4, .allocNamedState ":c", [], rfl, ?_⟩
    show Operation.Answers _ (run _ Draft.empty.builder) _ _
    rw [run_eq]
    exact ⟨rfl, rfl⟩
  have declared_b : Declared declaredTwice ":b" :=
    ⟨[.jumpTarget ":a"], .translate _, _, rfl,
      .translate (.consequent rfl (Nat.le_refl 1) rfl (.label (by decide) rfl))⟩
  refine ⟨_, rfl, agrees.counted, (answered _ _ given_a).1, same _ _ _ _ given_a given_c, ?_, ?_,
    fun listed => ((unresolved _).mp listed).2.2 declared_b⟩
  · exact (declareLabel_error _ _).mpr ⟨rfl, Or.inr declared_b⟩
  · exact (allocNamedState_error _ _).mpr ⟨rfl, 6, (answered _ _ given_c).2⟩

end Builder

end ProtocolGraph
