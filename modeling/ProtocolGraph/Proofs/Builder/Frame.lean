import ProtocolGraph.Proofs.Builder.Registry

/-!
# What operations leave alone

A builder is never undone, so all that protects a graph is that operations leave alone what is not
theirs to change. This holds after every history of a builder.

* `Builder.OpenEnded b c`: the builder `c` is `b` with more drawn at its open ends. A transition is
  added where the path of `b` ended, at a state created on the way, or at a state that was reserved
  for a label and whose label has been declared on the way; other states keep theirs
  (`OpenEnded.outgoing_eq`).
* **`Builder.drawn_at_open_ends`**: translating a node adds to a builder in this way only, whether
  it fails or not.
* `Builder.declareLabel_of_error` and its kin: an operation that fails has changed nothing until
  then.
* `Node.BreaksOff`: the node is a branch that is entered and one of whose alternatives cannot be
  translated.
* **`Builder.kept_by_failures`**: an operation that fails leaves the builder as it was, and so does
  a node that cannot be translated, exactly unless it breaks off.
-/

namespace ProtocolGraph

/-! ## Open ends -/

namespace Builder

/-- The transitions that leave a state, in their order. -/
def outgoing (b : Builder) (x : StateId) : List Transition :=
  b.transitions.filter (·.source == x)

/-- The state has been created on the way from `b` to `c`. -/
def Created (b c : Builder) (x : StateId) : Prop :=
  (∀ s ∈ b.states, s.id ≠ x) ∧ ∃ s ∈ c.states, s.id = x

/-- The state was reserved for a label in `b`, and the label has been declared on the way to `c`. -/
def Settled (b c : Builder) (x : StateId) : Prop :=
  ∃ n, b.stateForName n = some x ∧ n ∉ b.declared ∧ n ∈ c.declared

/-- The builder `c` is `b` with more drawn at its open ends. -/
structure OpenEnded (b c : Builder) : Prop where
  states : b.states <+: c.states
  names : ∀ n x, b.stateForName n = some x → c.stateForName n = some x
  declared : b.declared <+: c.declared
  initial : c.initial = b.initial
  scopes : c.scopes = b.scopes
  vars : c.vars = b.vars
  nextVariable : c.nextVariable = b.nextVariable
  added : ∃ new, c.transitions = b.transitions ++ new ∧
    ∀ t ∈ new, b.current = some t.source ∨ Created b c t.source ∨ Settled b c t.source

variable {b c : Builder} {x : StateId}

/-- **No other state gains a transition.** A state that exists keeps its transitions unless the path
ends there, or its label is declared. -/
theorem OpenEnded.outgoing_eq (h : b.OpenEnded c) (known : ∃ s ∈ b.states, s.id = x)
    (away : b.current ≠ some x) (unsettled : ¬Settled b c x) : c.outgoing x = b.outgoing x := by
  obtain ⟨new, drawn, ends⟩ := h.added
  have elsewhere : ∀ t ∈ new, t.source ≠ x := by
    rintro t ht rfl
    rcases ends t ht with here | ⟨unknown, -⟩ | settled
    · exact away here
    · obtain ⟨s, hs, same⟩ := known
      exact unknown s hs same
    · exact unsettled settled
  have none_left : new.filter (·.source == x) = [] :=
    List.filter_eq_nil_iff.mpr fun t ht => by simpa using elsewhere t ht
  unfold outgoing
  rw [drawn, List.filter_append, none_left, List.append_nil]

end Builder

namespace Draft

open Builder (Created Settled)

variable {d e : Draft} {x : StateId} {n : String}

theorem Sound.stateForName_eq_some_iff (h : d.Sound) :
    d.builder.stateForName n = some x ↔ ⟨x, some n⟩ ∈ d.states := by
  rw [Builder.stateForName, lookup_named]
  exact h.stateNamed?_eq_some_iff

/-- A state becomes fixed by being created, or by its label being placed. -/
theorem Extends.created_or_settled (h : d.Extends e) (sound : d.Sound) (before : ¬d.Fixed x)
    (after : e.Fixed x) : Created d.builder e.builder x ∨ Settled d.builder e.builder x := by
  obtain ⟨name, hs, placed⟩ := after
  by_cases known : ∃ s ∈ d.states, s.id = x
  · obtain ⟨⟨x, name'⟩, hd, rfl⟩ := known
    obtain ⟨-, rfl⟩ := State.mk.inj (h.sound.eq_of_id (h.states.subset hd) hs rfl)
    have waiting : ¬∀ n ∈ name', n ∈ d.placed := fun all => before ⟨name', hd, all⟩
    simp only [not_forall] at waiting
    obtain ⟨n, rfl, unplaced⟩ := waiting
    exact Or.inr ⟨n, sound.stateForName_eq_some_iff.mpr hd, unplaced, placed n rfl⟩
  · simp only [not_exists, not_and] at known
    exact Or.inl ⟨known, _, hs, rfl⟩

theorem Extends.openEnded (h : d.Extends e) (sound : d.Sound) :
    d.builder.OpenEnded e.builder where
  states := h.states
  names := fun n x hx => h.sound.stateForName_eq_some_iff.mpr
    (h.states.subset (sound.stateForName_eq_some_iff.mp hx))
  declared := h.placed
  initial := rfl
  scopes := by rw [scopes_builder, h.scopes, scopes_builder]
  vars := h.vars
  nextVariable := congrArg List.length h.vars
  added := by
    obtain ⟨new, drawn, touched⟩ := h.transitions
    refine ⟨new, drawn, fun t ht => (touched t ht).imp_right ?_⟩
    exact fun ⟨before, after⟩ => h.created_or_settled sound before after

end Draft

namespace Builder

open Draft (sound_empty)
open Edit (Answer)

/-- **Translating a node adds to a builder at its open ends only**, whether it fails or not. After
every history, all states and transitions stay as they were, and so do the states of all names, the
declared labels, the initial state, the variables and the scopes. New transitions come behind the
old ones, and start where the path ended, at states created on the way, or at states that were
reserved for a label that has been declared on the way. No other state that there was gains a
transition. -/
theorem drawn_at_open_ends (ops : List Operation) (n : Node) :
    let b := run ops new
    let c := ((Building.translate n).outcome b).2
    b.OpenEnded c ∧ ∀ x, (∃ s ∈ b.states, s.id = x) → b.current ≠ some x → ¬Settled b c x →
      c.outgoing x = b.outgoing x := by
  intro b c
  have ends : b.OpenEnded c := by
    have held : b = _ := run_eq ops .empty
    have sound := (Edit.grown_run (ops.map Operation.edit) sound_empty).sound
    show b.OpenEnded ((Building.translate n).outcome b).2
    rw [held, Building.outcome_translate]
    exact (Statement.extends_extend (Statement.ofNode n) sound).openEnded sound
  exact ⟨ends, fun x => ends.outgoing_eq⟩

/-- A label is reserved, and then declared in the consequent of a branch that breaks off behind it.
Its state gains a transition, and the initial state, where the path ended, gains two. -/
theorem drawn_at_open_ends_reserved : ∃ c, ((Building.translate (.list [.symbol "if", .symbol "p",
      .list [.symbol "if", .symbol "q", .keyword ":a"], .int 42])).outcome
        (run [.jumpTarget ":a"] new)).2 = c ∧
    (run [.jumpTarget ":a"] new).OpenEnded c ∧ Settled (run [.jumpTarget ":a"] new) c 2 ∧
    c.outgoing 2 = [⟨2, 5, .leaving "ifend"⟩] ∧
    c.outgoing 1 = [⟨1, 3, .entering (.reference "p")⟩, ⟨1, 6, .passing (.reference "p")⟩] := by
  refine ⟨_, congrArg Prod.snd (Building.outcome_translate _ (Edit.run [.reserve ":a"] .empty)),
    ?_, ⟨":a", by decide, by decide, by decide⟩, by decide, by decide⟩
  have ends := (drawn_at_open_ends [.jumpTarget ":a"] (.list [.symbol "if", .symbol "p",
    .list [.symbol "if", .symbol "q", .keyword ":a"], .int 42])).1
  rwa [show run [.jumpTarget ":a"] new = (Edit.run [.reserve ":a"] .empty).builder from rfl,
    Building.outcome_translate] at ends

/-! ## Operations that fail -/

variable {b : Builder} {fault : Draft.Fault} {name : String} {f : Failure}

theorem allocNamedState_of_error (h : (b.allocNamedState name).1 = .error fault) :
    (b.allocNamedState name).2 = b := by
  unfold allocNamedState at h ⊢
  split at h
  · rw [if_pos ‹_›]
  · cases h

theorem jumpTarget_of_error (h : (b.jumpTarget name).1 = .error fault) :
    (b.jumpTarget name).2 = b := by
  unfold jumpTarget at h ⊢
  cases known : b.stateForName name with
  | some id => rfl
  | none =>
    rw [known] at h
    exact allocNamedState_of_error h

theorem declareLabel_of_error (h : (b.declareLabel name).1 = .error fault) :
    (b.declareLabel name).2 = b := by
  unfold declareLabel at h ⊢
  by_cases declared : name ∈ b.declared
  · rw [if_pos declared]
  · rw [if_neg declared] at h ⊢
    cases unknown : b.stateForName name with
    | some id =>
      rw [unknown] at h
      cases h
    | none =>
      simp only [unknown] at h ⊢
      cases created : b.allocNamedState name with
      | mk outcome c =>
        simp only [created] at h ⊢
        cases outcome with
        | ok id => cases h
        | error fault' =>
          have kept := allocNamedState_of_error (congrArg Prod.fst created)
          rwa [created] at kept

theorem closeScope_of_error (h : b.closeScope.1 = .error fault) : b.closeScope.2 = b := by
  unfold closeScope at h ⊢
  cases scopes : b.scopes with
  | nil => rfl
  | cons scope outer =>
    rw [scopes] at h
    cases h

theorem bindVariable_of_error (h : (b.bindVariable name).1 = .error fault) :
    (b.bindVariable name).2 = b := by
  unfold bindVariable at h ⊢
  cases scopes : b.scopes with
  | nil => rfl
  | cons scope outer =>
    simp only [scopes] at h ⊢
    split at h
    · rw [if_pos ‹_›]
    · cases h

/-- What is reported as a failure was one. -/
theorem exists_error_of_report {α : Type} {answer : α → Answer}
    {outcome : Except Draft.Fault α × Builder} (h : (report answer outcome).1 = .error f) :
    ∃ fault, outcome.1 = .error fault := by
  obtain ⟨fault, he, -⟩ := Outcome.mapError_eq_error_iff.mp (Outcome.map_eq_error_iff.mp h)
  exact ⟨fault, he⟩

/-- **An operation that fails leaves the builder alone**, unless it translates a node. -/
theorem Operation.apply_of_error {op : Operation} (h : (op.apply b).1 = .error f)
    (other : ∀ n, op ≠ translate n) : (op.apply b).2 = b := by
  cases op with
  | allocNamedState name =>
    obtain ⟨fault, failed⟩ := exists_error_of_report h
    exact allocNamedState_of_error failed
  | declareLabel name =>
    obtain ⟨fault, failed⟩ := exists_error_of_report h
    exact declareLabel_of_error failed
  | jumpTarget name =>
    obtain ⟨fault, failed⟩ := exists_error_of_report h
    exact jumpTarget_of_error failed
  | closeScope =>
    obtain ⟨fault, failed⟩ := exists_error_of_report h
    exact closeScope_of_error failed
  | bindVariable name =>
    obtain ⟨fault, failed⟩ := exists_error_of_report h
    exact bindVariable_of_error failed
  | resolveVariable name => rfl
  | translate n => exact absurd rfl (other n)
  | _ => cases h

end Builder

/-! ## Branches that break off -/

/-- Nothing comes after a failure. -/
theorem Attempt.andThen_of_failure {a : Attempt} {f : Failure} (h : a.failure = some f)
    (next : Draft → Attempt) : a.andThen next = a := by
  rw [andThen, h]

namespace Node

open Statement Draft Building

/-- The node is a branch that can be entered, with one alternative or two, and one of these cannot
be translated. -/
inductive BreaksOff : Node → Builder → Prop
  | consequent {guard n others condition b x f} (read : Expression.ofNode guard = .ok condition)
      (few : others.length ≤ 1) (here : b.current = some x)
      (failed : ((translate n).outcome (b.enter x (.entering condition))).1 = .error f) :
      BreaksOff (.list (.symbol "if" :: guard :: n :: others)) b
  | alternative {guard n other condition b c x f} (read : Expression.ofNode guard = .ok condition)
      (here : b.current = some x)
      (first : (translate n).outcome (b.enter x (.entering condition)) = (.ok (), c))
      (failed : ((translate other).outcome
        ((c.setCurrent (some x)).enter x (.passing condition))).1 = .error f) :
      BreaksOff (.list [.symbol "if", guard, n, other]) b

variable {n : Node} {d : Draft} {f : Failure}

theorem translate_eq_error_iff (n : Node) (d : Draft) :
    ((translate n).outcome d.builder).1 = .error f ↔ ((ofNode n).extend d).failure = some f := by
  rw [outcome_translate]
  obtain ⟨e, _ | g⟩ := (ofNode n).extend d <;> simp [Attempt.outcome]

/-- A node that cannot be translated changes the builder only if it breaks off. -/
theorem breaksOff_of_changed (h : ((ofNode n).extend d).failure = some f)
    (changed : ((ofNode n).extend d).draft ≠ d) : n.BreaksOff d.builder := by
  by_cases entered : ∃ depth m e, n.Reaches d (depth + 1) m e
  · obtain ⟨depth, m, e, reached⟩ := entered
    obtain ⟨guard, consequent, others, condition, x, rfl, few, read, standing⟩ :=
      reached.exists_branch
    have inFirst : ∀ g, ((ofNode consequent).extend (d.step x (.entering condition))).failure =
        some g → (list (.symbol "if" :: guard :: consequent :: others)).BreaksOff d.builder := by
      intro g failed
      refine .consequent (f := g) read few standing ?_
      rw [enter_builder]
      exact (translate_eq_error_iff _ _).mpr failed
    rcases others with _ | ⟨alternative, _ | _⟩
    · obtain ⟨g, failed, -⟩ := (failure_branch_iff read standing).mp h
      exact inFirst g failed
    · obtain ⟨g, failed | ⟨e, drawn, failed⟩, -⟩ := (failure_branchElse_iff read standing).mp h
      · exact inFirst g failed
      · have first := outcome_translate consequent (d.step x (.entering condition))
        rw [drawn, ← enter_builder] at first
        refine .alternative (f := g) read standing first ?_
        show ((translate alternative).outcome ((e.moveTo (some x)).builder.enter x _)).1 = _
        rw [enter_builder]
        exact (translate_eq_error_iff _ _).mpr failed
    · simp at few
  · simp only [not_exists] at entered
    exact absurd (congrArg Attempt.draft (failsHere_of_unentered entered h).failed) changed

theorem BreaksOff.exists_arguments {b : Builder} (h : n.BreaksOff b) :
    ∃ arguments, n = .list (.symbol "if" :: arguments) := by
  cases h <;> exact ⟨_, rfl⟩

/-- After a branch has been entered there is one state more. -/
theorem ne_of_entered {e : Draft} {x : StateId} {label : Label}
    (entered : (d.step x label).states <+: e.states) : e ≠ d := by
  rintro rfl
  exact absurd entered.length_le (by simp [step, connect, moveTo, addState])

/-- What breaks off has changed the draft. -/
theorem BreaksOff.changed (h : n.BreaksOff d.builder) (sound : d.Sound) :
    ((ofNode n).extend d).draft ≠ d := by
  generalize held : d.builder = b at h
  cases h with
  | @consequent guard n others condition _ x f read few here failed =>
    subst held
    rw [enter_builder] at failed
    have failed := (translate_eq_error_iff _ _).mp failed
    have entered := extends_extend (ofNode n) (sound.step x (.entering condition))
    rcases others with _ | ⟨alternative, _ | _⟩
    · rw [ofNode_branch read, extend, fromHere_of_standing here, Attempt.draft_within,
        Attempt.andThen_of_failure failed]
      exact ne_of_entered entered.states
    · rw [ofNode_branchElse read, extend, fromHere_of_standing here, Attempt.draft_within,
        Attempt.andThen_of_failure failed]
      exact ne_of_entered entered.states
    · simp at few
  | @alternative guard n other condition _ c x f read here first failed =>
    subst held
    rw [enter_builder] at first
    obtain ⟨e, drawn, rfl⟩ := translate_builder_eq_ok first
    have failed : ((ofNode other).extend (e.step x (.passing condition))).failure = some f :=
      (translate_eq_error_iff _ _).mp ((enter_builder x _ (e.moveTo (some x))) ▸ failed)
    have first := extends_extend (ofNode n) (sound.step x (.entering condition))
    rw [drawn] at first
    rw [ofNode_branchElse read, extend, fromHere_of_standing here, Attempt.draft_within, drawn,
      Attempt.done_andThen, Attempt.andThen_of_failure failed]
    have passed := extends_extend (ofNode other) (first.sound.step x (.passing condition))
    exact ne_of_entered (first.states.trans ((List.prefix_append _ _).trans passed.states))

end Node

namespace Builder

open Draft (sound_empty)

/-- **What fails leaves the builder as it was.** After every history, an operation that fails
changes nothing, unless it translates a node. A node that cannot be translated changes something
exactly if it is a branch at a place where control may come, with a condition that can be read and
one alternative or two, and one of these cannot be translated. -/
theorem kept_by_failures (ops : List Operation) :
    let b := run ops new
    (∀ (op : Operation) f, (op.apply b).1 = .error f → (∀ n, op ≠ .translate n) →
      (op.apply b).2 = b) ∧
    ∀ n f, ((Building.translate n).outcome b).1 = .error f →
      (((Building.translate n).outcome b).2 ≠ b ↔ n.BreaksOff b) := by
  intro b
  refine ⟨fun op f failed other => Operation.apply_of_error failed other, fun n f => ?_⟩
  have held : b = _ := run_eq ops .empty
  have sound := (Edit.grown_run (ops.map Operation.edit) sound_empty).sound
  generalize Edit.run (ops.map Operation.edit) .empty = d at held sound
  rw [held, Node.translate_eq_error_iff]
  intro failed
  have changed : ((Building.translate n).outcome d.builder).2 ≠ d.builder ↔
      ((Statement.ofNode n).extend d).draft ≠ d := by
    rw [Building.outcome_translate]
    exact not_congr ⟨fun same => Draft.builder_injective same, congrArg Draft.builder⟩
  rw [changed]
  exact ⟨Node.breaksOff_of_changed failed, fun broken => broken.changed sound⟩

/-- A name is bound twice in a scope, a field has no value, and the alternative of a branch is no
statement. -/
theorem kept_by_failures_alternative : ∃ b, run [.openScope, .bindVariable "x"] new = b ∧
    ((Operation.bindVariable "x").apply b).1 = .error (.of (.graph (.duplicateVariable "x"))) ∧
    ((Operation.bindVariable "x").apply b).2 = b ∧
    (∃ f, ((Building.translate (.list [.symbol "!send", .symbol "Ping", .keyword ":n"])).outcome
      b).1 = .error f) ∧
    ((Building.translate (.list [.symbol "!send", .symbol "Ping", .keyword ":n"])).outcome b).2 =
      b ∧
    (∃ f, ((Building.translate (.list [.symbol "if", .symbol "p", .keyword ":a", .int 42])).outcome
      b).1 = .error f) ∧
    ((Building.translate (.list [.symbol "if", .symbol "p", .keyword ":a", .int 42])).outcome b).2 ≠
      b := by
  obtain ⟨operations, nodes⟩ := kept_by_failures [.openScope, .bindVariable "x"]
  have failing := fun n f =>
    @Node.translate_eq_error_iff f n (Edit.run [.openScope, .bind "x"] .empty)
  have sending := (failing (.list [.symbol "!send", .symbol "Ping", .keyword ":n"]) _).mpr rfl
  have branching := (failing (.list [.symbol "if", .symbol "p", .keyword ":a", .int 42]) _).mpr rfl
  refine ⟨_, rfl, rfl, operations _ _ rfl (by simp), ⟨_, sending⟩, ?_, ⟨_, branching⟩, ?_⟩
  · by_contra changed
    obtain ⟨arguments, branch⟩ := ((nodes _ _ sending).mp changed).exists_arguments
    simp at branch
  · obtain ⟨c, labelled⟩ : ∃ c, (Building.translate (.keyword ":a")).outcome
        ((run [.openScope, .bindVariable "x"] new).enter 1 (.entering (.reference "p"))) =
          (.ok (), c) :=
      ⟨_, by rw [Building.translate]; rfl⟩
    refine (nodes _ _ branching).mpr
      (.alternative (f := .of (.placement (.notStatement .int))) rfl rfl labelled ?_)
    rw [Building.translate]
    exacts [rfl, by simp, by simp]

end Builder

end ProtocolGraph
