import ProtocolGraph.Proofs.Draft.Alike
import ProtocolGraph.Proofs.Statement.Accepted

/-!
# Labels resolved in advance

While a body is drawn, the state of a label is created where the label is first mentioned. One can
also draw in two passes: the first creates the states of all labels that are mentioned anywhere, and
the second draws as before, but only looks labels up.

* `Resolution`: the part of the rules of drawing that resolves labels. `extendBy r` draws with the
  other rules as they are; `extendBy_onDemand` says that this is how statements are drawn.
* `twoPass`: the two passes. The second creates no named state (`names_extendAllBy_known`).
* `Alongside`: two attempts that went on alike, and fail alike if they do.
  `alongside_extendBy` is the induction on statements.
* `failure_twoPass`: the two passes fail exactly when drawing does, for the same cause.
* **`exists_renumbering_twoPass`**: where nodes can be drawn, the two passes over the body that they
  spell draw the same graph up to the numbers of its states.
-/

namespace ProtocolGraph

namespace Draft

/-- Places a label at the end of the path, which must have its state already. The start label
changes nothing where the path is still at the initial state. -/
def placeKnown (name : String) (d : Draft) : Attempt :=
  if name = startLabel ∧ d.current = some initial then .done d
  else if name ∈ d.placed then .failed (.graph (.duplicateState name)) d
  else
    match d.stateNamed? name with
    | none => .failed (.graph (.unplacedLabel name)) d
    | some id =>
      let placed := { d with placed := d.placed ++ [name] }
      .done ((placed.connectFrom d.current id {}).moveTo (some id))

/-- A silent transition to the state of a label, which must exist already. -/
def jumpKnown (source : StateId) (target : String) (d : Draft) : Attempt :=
  match d.stateNamed? target with
  | none => .failed (.graph (.unplacedLabel target)) d
  | some id => .done ((d.connect ⟨source, id, {}⟩).moveTo none)

/-- Creates the states of those names that have none. -/
def reserveAll (names : List String) (d : Draft) : Draft :=
  names.foldl (fun d n => (d.reserve n).2) d

end Draft

namespace Statement

open Draft

/-- How labels find their states. -/
structure Resolution where
  /-- Places a label at the end of the path. -/
  place : String → Draft → Attempt
  /-- Jumps from a state to a label. -/
  jump : StateId → String → Draft → Attempt

/-- The state of a label is created where the label is first mentioned. -/
def Resolution.onDemand : Resolution where
  place := placeHere
  jump := fun source target d => .done (d.jump source target)

/-- The states of labels exist, and are looked up. -/
def Resolution.known : Resolution where
  place := placeKnown
  jump := jumpKnown

/-- Draws the statement into the draft, and resolves labels in this way. -/
def extendBy (r : Resolution) : Statement → Draft → Attempt
  | .label name, d => r.place name d
  | .send message valuation, d =>
    d.fromHere "!send" fun source => .done (d.step source (.sending message valuation))
  | .receive message, d =>
    d.fromHere "?receive" fun source => .done (d.step source (.receiving message))
  | .jump target, d => d.fromHere "goto" fun source => r.jump source target d
  | .branch guard consequent, d =>
    d.fromHere "if" fun source =>
      ((consequent.extendBy r (d.step source (.entering guard))).andThen fun d =>
        .done (d.join d.current none)).within "if"
  | .branchElse guard consequent alternative, d =>
    d.fromHere "if" fun source =>
      ((consequent.extendBy r (d.step source (.entering guard))).andThen fun d =>
        (alternative.extendBy r (d.step source (.passing guard))).andThen fun e =>
          .done (e.join d.current e.current)).within "if"
  | .misread form cause, d => d.fromHere form fun _ => (Attempt.failed cause d).within form
  | .foreign cause, d => .failed cause d

/-- Draws statements one after the other, up to the first that fails. -/
def extendAllBy (r : Resolution) : List Statement → Draft → Attempt
  | [], d => .done d
  | s :: rest, d => (s.extendBy r d).andThen (extendAllBy r rest)

/-- The labels that the statements mention have their states first, and then the statements are
drawn. -/
def twoPass (body : List Statement) : Attempt :=
  extendAllBy .known body (Draft.empty.reserveAll (body.flatMap labels ++ body.flatMap targets))

theorem extendBy_onDemand (s : Statement) (d : Draft) : s.extendBy .onDemand d = s.extend d := by
  induction s generalizing d with
  | branch guard consequent ih => simp only [extendBy, extend, ih]
  | branchElse guard consequent alternative ihc iha => simp only [extendBy, extend, ihc, iha]
  | _ => rfl

theorem extendAllBy_onDemand (body : List Statement) (d : Draft) :
    extendAllBy .onDemand body d = extendAll body d := by
  induction body generalizing d with
  | nil => rfl
  | cons s rest ih =>
    rw [extendAllBy, extendAll, extendBy_onDemand]
    exact congrArg (Attempt.andThen (s.extend d)) (funext ih)

/-! ## Attempts side by side -/

/-- Two attempts on these drafts have gone on alike: both or none failed, for one cause. -/
structure Alongside (d e : Draft) (a b : Attempt) : Prop where
  failure : a.failure = b.failure
  alike : a.draft.Alike b.draft
  left : d.states <+: a.draft.states
  right : e.states <+: b.draft.states

variable {d e d' e' : Draft} {a b : Attempt} {x y : StateId} {n : String} {s : Statement}
  {body : List Statement}

namespace Alongside

theorem of_eq (h : d.Alike e) (failure : Option Failure) :
    Alongside d e ⟨d, failure⟩ ⟨e, failure⟩ :=
  ⟨rfl, h, List.prefix_rfl, List.prefix_rfl⟩

theorem done (h : d'.Alike e') (left : d.states <+: d'.states) (right : e.states <+: e'.states) :
    Alongside d e (.done d') (.done e') :=
  ⟨rfl, h, left, right⟩

theorem trans (left : d.states <+: d'.states) (right : e.states <+: e'.states)
    (h : Alongside d' e' a b) : Alongside d e a b :=
  ⟨h.failure, h.alike, left.trans h.left, right.trans h.right⟩

theorem andThen {next next' : Draft → Attempt} (h : Alongside d e a b)
    (hn : Alongside a.draft b.draft (next a.draft) (next' b.draft)) :
    Alongside d e (a.andThen next) (b.andThen next') := by
  obtain ⟨d', failure⟩ := a
  obtain ⟨e', failure'⟩ := b
  obtain rfl : failure = failure' := h.failure
  cases failure with
  | none => exact hn.trans h.left h.right
  | some f => exact h

theorem within (h : Alongside d e a b) (form : String) :
    Alongside d e (a.within form) (b.within form) :=
  ⟨congrArg (Option.map (Failure.within form)) h.failure, h.alike, h.left, h.right⟩

/-- Work from the end of the path goes on alike if it does so from twins. -/
theorem fromHere {name : String} {work work' : StateId → Attempt} (h : d.Alike e)
    (hw : ∀ x y, Twins d.states e.states x y → Alongside d e (work x) (work' y)) :
    Alongside d e (d.fromHere name work) (e.fromHere name work') := by
  have current := h.current
  unfold Draft.fromHere
  generalize d.current = p at current
  generalize e.current = q at current
  cases current with
  | none => exact .of_eq h _
  | some twins => exact hw _ _ twins

theorem step (h : d.Alike e) (twins : Twins d.states e.states x y) (label : Label) :
    Alongside d e (.done (d.step x label)) (.done (e.step y label)) :=
  .done (h.step twins label) (List.prefix_append _ _) (List.prefix_append _ _)

end Alongside

theorem Alongside.join {p q p' q' : Option StateId} (h : d.Alike e)
    (first : Option.Rel (Twins d.states e.states) p q)
    (second : Option.Rel (Twins d.states e.states) p' q') :
    Alongside d e (.done (d.join p p')) (.done (e.join q q')) :=
  .done (h.join first second) (prefix_join _ _ _) (prefix_join _ _ _)

/-! ## Labels -/

theorem alongside_place (h : d.Alike e) (hn : n ∈ e.names) :
    Alongside d e (d.placeHere n) (e.placeKnown n) := by
  obtain ⟨y, hy⟩ := mem_names.mp hn
  unfold placeHere placeKnown
  by_cases idle : n = startLabel ∧ d.current = some initial
  · have idle' : n = startLabel ∧ e.current = some initial :=
      idle.imp_right h.current_initial_iff.mp
    rw [if_pos idle, if_pos idle']
    exact .of_eq h none
  · have busy : ¬(n = startLabel ∧ e.current = some initial) := fun idle' =>
      idle (idle'.imp_right h.current_initial_iff.mpr)
    rw [if_neg idle, if_neg busy, place, h.placed, h.sound'.stateNamed?_eq_some_iff.mpr hy]
    by_cases again : n ∈ e.placed
    · rw [if_pos again, if_pos again]
      exact .of_eq h _
    · rw [if_neg again, if_neg again]
      have left := states_reserve d n
      have reserved := h.reserve hn
      have twins : Twins (d.reserve n).2.states e.states (d.reserve n).1 y := Alike.twins_reserve hy
      have placed := reserved.addPlaced (mem_names_reserve_iff.mpr (Or.inr rfl))
      have drawn := placed.connectFrom (Twins.option_mono h.current left List.prefix_rfl) twins {}
      refine .done (drawn.moveTo (.some ?_)) ?_ ?_
      · rwa [states_connectFrom, states_connectFrom]
      · exact (states_connectFrom _ _ _ _).symm ▸ left
      · exact (states_connectFrom _ _ _ _).symm ▸ List.prefix_rfl

theorem alongside_jump (h : d.Alike e) (hn : n ∈ e.names) (twins : Twins d.states e.states x y) :
    Alongside d e (.done (d.jump x n)) (e.jumpKnown y n) := by
  obtain ⟨z, hz⟩ := mem_names.mp hn
  unfold jumpKnown
  rw [h.sound'.stateNamed?_eq_some_iff.mpr hz]
  have left := states_reserve d n
  have target : Twins (d.reserve n).2.states e.states (d.reserve n).1 z := Alike.twins_reserve hz
  have source := twins.mono left List.prefix_rfl
  have drawn := (h.reserve hn).connect (source.transition target {})
  exact .done (drawn.moveTo .none) left List.prefix_rfl

/-! ## Statements -/

/-- All labels that the statement mentions have states. -/
def Known (e : Draft) (s : Statement) : Prop :=
  ∀ n, n ∈ s.labels ∨ n ∈ s.targets → n ∈ e.names

theorem Known.mono (h : Known e s) (states : e.states <+: e'.states) : Known e' s := by
  intro n hn
  obtain ⟨y, hy⟩ := mem_names.mp (h n hn)
  exact mem_names.mpr ⟨y, states.subset hy⟩

theorem known_branchElse {guard : Expression} {consequent alternative : Statement}
    (h : Known e (.branchElse guard consequent alternative)) :
    Known e consequent ∧ Known e alternative := by
  simp only [Known, labels, targets, List.mem_append] at h ⊢
  exact ⟨fun n hn => h n (hn.imp Or.inl Or.inl), fun n hn => h n (hn.imp Or.inr Or.inr)⟩

/-- **Drawing goes on alike** whether the states of labels are created on demand or known. -/
theorem alongside_extendBy (s : Statement) : ∀ {d e : Draft}, d.Alike e → Known e s →
    Alongside d e (s.extendBy .onDemand d) (s.extendBy .known e) := by
  induction s with
  | label name =>
    exact fun h known => alongside_place h (known name (Or.inl (List.mem_singleton_self name)))
  | send message valuation =>
    exact fun h _ => .fromHere h fun x y twins => .step h twins _
  | receive message => exact fun h _ => .fromHere h fun x y twins => .step h twins _
  | jump target =>
    intro d e h known
    refine .fromHere h fun x y twins => ?_
    exact alongside_jump h (known target (Or.inr (List.mem_singleton_self target))) twins
  | branch guard consequent ih =>
    intro d e h known
    refine .fromHere h fun x y twins => Alongside.within ?_ "if"
    have entered := Alongside.step h twins (.entering guard)
    have drawn := ih entered.alike (Known.mono (s := consequent) known entered.right)
    refine (drawn.trans entered.left entered.right).andThen ?_
    exact .join drawn.alike drawn.alike.current .none
  | branchElse guard consequent alternative ihc iha =>
    intro d e h known
    obtain ⟨knownc, knowna⟩ := known_branchElse known
    refine .fromHere h fun x y twins => Alongside.within ?_ "if"
    have entered := Alongside.step h twins (.entering guard)
    have first := (ihc entered.alike (knownc.mono entered.right)).trans entered.left entered.right
    refine first.andThen ?_
    -- the branch itself has not moved while its consequent was drawn
    have passed := Alongside.step first.alike (twins.mono first.left first.right) (.passing guard)
    have both := iha passed.alike (knowna.mono (first.right.trans passed.right))
    have second := both.trans passed.left passed.right
    refine second.andThen ?_
    exact .join second.alike (Twins.option_mono first.alike.current second.left second.right)
      second.alike.current
  | misread form cause =>
    exact fun h _ => .fromHere h fun _ _ _ => (Alongside.of_eq h _).within form
  | foreign cause => exact fun h _ => .of_eq h _

theorem alongside_extendAllBy (body : List Statement) : ∀ {d e : Draft}, d.Alike e →
    (∀ s ∈ body, Known e s) →
      Alongside d e (extendAllBy .onDemand body d) (extendAllBy .known body e) := by
  induction body with
  | nil => exact fun h _ => .of_eq h none
  | cons s rest ih =>
    intro d e h known
    obtain ⟨known_s, known_rest⟩ := List.forall_mem_cons.mp known
    have head := alongside_extendBy s h known_s
    exact head.andThen (ih head.alike fun s hs => (known_rest s hs).mono head.right)

/-! ## The first pass -/

theorem alike_reserveAll (h : d.Alike e) (names : List String) : d.Alike (e.reserveAll names) := by
  induction names generalizing e with
  | nil => exact h
  | cons n rest ih => exact ih (h.reserve_right n)

theorem mem_names_reserveAll_iff {names : List String} :
    n ∈ (e.reserveAll names).names ↔ n ∈ e.names ∨ n ∈ names := by
  induction names generalizing e with
  | nil => simp [reserveAll]
  | cons m rest ih =>
    rw [reserveAll, List.foldl_cons, ← reserveAll, ih, mem_names_reserve_iff, List.mem_cons,
      or_assoc]

/-! ## The second pass -/

theorem names_fromHere {name : String} {work : StateId → Attempt}
    (hw : ∀ x, (work x).draft.names = e.names) : (e.fromHere name work).draft.names = e.names := by
  unfold fromHere
  split
  · rfl
  · exact hw _

theorem names_andThen {next : Draft → Attempt} (ha : a.draft.names = e.names)
    (hn : (next a.draft).draft.names = a.draft.names) :
    (a.andThen next).draft.names = e.names := by
  unfold Attempt.andThen
  split
  · exact hn.trans ha
  · exact ha

/-- The second pass creates no named state. -/
theorem names_extendBy_known (s : Statement) :
    ∀ e : Draft, (s.extendBy .known e).draft.names = e.names := by
  induction s with
  | label name =>
    intro e
    show (e.placeKnown name).draft.names = e.names
    unfold placeKnown
    split
    · rfl
    · split
      · rfl
      · split
        · rfl
        · exact names_connectFrom _ _ _ _
  | send message valuation => exact fun e => names_fromHere fun x => names_step
  | receive message => exact fun e => names_fromHere fun x => names_step
  | jump target =>
    intro e
    refine names_fromHere fun x => ?_
    show (e.jumpKnown x target).draft.names = e.names
    unfold jumpKnown
    split <;> rfl
  | branch guard consequent ih =>
    intro e
    refine names_fromHere fun x => names_andThen ((ih _).trans names_step) ?_
    exact names_join _ _ _
  | branchElse guard consequent alternative ihc iha =>
    intro e
    refine names_fromHere fun x => names_andThen ((ihc _).trans names_step) ?_
    exact names_andThen ((iha _).trans names_step) (names_join _ _ _)
  | misread form cause => exact fun e => names_fromHere fun _ => rfl
  | foreign cause => exact fun e => rfl

theorem names_extendAllBy_known (body : List Statement) :
    ∀ e : Draft, (extendAllBy .known body e).draft.names = e.names := by
  induction body with
  | nil => exact fun _ => rfl
  | cons s rest ih => exact fun e => names_andThen (names_extendBy_known s e) (ih _)

theorem mem_names_twoPass_iff : n ∈ (twoPass body).draft.names ↔
    n = startLabel ∨ n ∈ body.flatMap labels ∨ n ∈ body.flatMap targets := by
  rw [twoPass, names_extendAllBy_known, mem_names_reserveAll_iff, List.mem_append]
  exact or_congr_left List.mem_singleton

/-! ## Both passes -/

theorem alongside_twoPass (body : List Statement) :
    Alongside Draft.empty (Draft.empty.reserveAll (body.flatMap labels ++ body.flatMap targets))
      (extendAll body Draft.empty) (twoPass body) := by
  rw [← extendAllBy_onDemand]
  refine alongside_extendAllBy body (alike_reserveAll alike_empty _) fun s hs n hn => ?_
  refine mem_names_reserveAll_iff.mpr (Or.inr (List.mem_append.mpr ?_))
  exact hn.imp (fun h => List.mem_flatMap.mpr ⟨s, hs, h⟩) fun h => List.mem_flatMap.mpr ⟨s, hs, h⟩

/-- **The two passes fail exactly when drawing fails**, and for the same cause. -/
theorem failure_twoPass (body : List Statement) :
    (twoPass body).failure = (extendAll body Draft.empty).failure :=
  (alongside_twoPass body).failure.symm

/-- **Two passes draw the same graph** as one, up to the numbers of its states. Nodes that can be
drawn spell a body, and the two passes over it succeed. There is a one-to-one correspondence between
the states of the two graphs that keeps the initial state and all names, takes the transitions of
the one, in their order, to those of the other, and the end of the path to the end of the path. -/
theorem exists_renumbering_twoPass {nodes : List Node}
    (drawn : extendAll (nodes.map ofNode) Draft.empty = .done d) :
    ∃ body, List.Forall₂ Node.Spells nodes body ∧
    ∃ e f, twoPass body = .done e ∧
      Set.BijOn f {x | ∃ s ∈ d.states, s.id = x} {y | ∃ s ∈ e.states, s.id = y} ∧
      f initial = initial ∧ (∀ s ∈ d.states, ⟨f s.id, s.name⟩ ∈ e.states) ∧
      e.transitions = d.transitions.map (Transition.renumber f) ∧
      e.current = d.current.map f := by
  refine ⟨_, spells_of_extendAll drawn, ?_⟩
  generalize nodes.map ofNode = body at drawn ⊢
  have derived := extendAll_empty_eq_done_iff.mp drawn
  have both := alongside_twoPass body
  rw [drawn] at both
  have succeeds : twoPass body = .done (twoPass body).draft :=
    Attempt.eq_done_iff.mpr ⟨both.failure.symm, rfl⟩
  have onto : ∀ n ∈ (twoPass body).draft.names, n ∈ d.names := by
    intro n hn
    rw [derived.mem_names_iff, targets_afterStart]
    by_cases start : n = startLabel
    · exact Or.inl (List.mem_singleton.mpr start)
    · rw [mem_labels_afterStart start]
      exact Or.inr ((mem_names_twoPass_iff.mp hn).resolve_left start)
  obtain ⟨f, renumbering⟩ := both.alike.exists_renumbering onto
  exact ⟨_, f, succeeds, renumbering⟩

/-- A label that one alternative of a branch jumps to, and that is placed behind the branch. Both
graphs have six states, with two numbers exchanged. -/
theorem exists_renumbering_twoPass_forward : ∃ d,
    extendAll ([.list [.symbol "if", .symbol "late", .list [.symbol "goto", .keyword ":done"],
      .list [.symbol "!send", .symbol "Ping"]], .keyword ":done"].map ofNode) Draft.empty =
        .done d ∧
    ∃ e f, twoPass [.branchElse (.reference "late") (.jump ":done") (.send "Ping" ∅),
        .label ":done"] = .done e ∧
      f initial = initial ∧ e.transitions = d.transitions.map (Transition.renumber f) ∧
      e.current = d.current.map f ∧
      d.transitions = [⟨1, 2, .entering (.reference "late")⟩, ⟨2, 3, {}⟩,
        ⟨1, 4, .passing (.reference "late")⟩, ⟨4, 5, .sending "Ping" ∅⟩,
        ⟨5, 6, .leaving "elseend"⟩, ⟨6, 3, {}⟩] := by
  refine ⟨_, rfl, ?_⟩
  obtain ⟨_, spelt, e, f, succeeds, -, start, -, transitions, current⟩ :=
    @exists_renumbering_twoPass _ [.list [.symbol "if", .symbol "late",
      .list [.symbol "goto", .keyword ":done"], .list [.symbol "!send", .symbol "Ping"]],
      .keyword ":done"] rfl
  obtain rfl := (Node.forall₂_spells_iff.mp spelt).1
  exact ⟨e, f, succeeds, start, transitions, current, rfl⟩

end Statement

end ProtocolGraph
