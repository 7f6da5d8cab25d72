import ProtocolGraph.Builder.Translate
import ProtocolGraph.Proofs.Builder.Refinement
import ProtocolGraph.Proofs.Draft.Sound
import ProtocolGraph.Proofs.Form.Arguments
import ProtocolGraph.Proofs.Statement.Reading

/-!
# Translating is drawing

A node is translated with one builder and one call for each form, step by step. It comes to the same
as reading the whole node as a statement first and drawing the statement then, with the same failure
and the same graph also where it fails.

* `Building.outcome_bind` and its kin: what the steps of some work come to.
* `Building.readPairs_unread`: pairs that are read in place are those that are read from the
  arguments which are unread. `Building.readSend_unread` and its kin say so of whole forms.
* `Building.outcome_send` and its kin: one lemma for each form. `Building.outcome_bind_eq` puts the
  parts of a branch together.
* **`Building.outcome_translate`**, **`Building.outcome_translateAll`**: translating nodes is
  drawing the statements that are read from them.
-/

namespace ProtocolGraph

namespace Attempt

/-- What the attempt comes to for the builder of its draft. -/
def outcome (a : Attempt) : Except Failure Unit × Builder :=
  (match a.failure with
    | none => .ok ()
    | some f => .error f, a.draft.builder)

theorem outcome_within (form : String) (a : Attempt) :
    (a.within form).outcome = (a.outcome.1.mapError (Failure.within form), a.outcome.2) := by
  obtain ⟨d, _ | f⟩ := a <;> rfl

end Attempt

namespace Building

open Draft Form Statement

variable {α β : Type} {d : Draft}

theorem outcome_bind (work : Building α) (next : α → Building β) (b : Builder) :
    (work >>= next).outcome b =
      match work.outcome b with
      | (.ok a, c) => (next a).outcome c
      | (.error f, c) => (.error f, c) := by
  show (ExceptT.bindCont next (work.outcome b).1).run (work.outcome b).2 = _
  generalize work.outcome b = result
  obtain ⟨_ | _, _⟩ := result <;> rfl

@[simp] theorem outcome_get (b : Builder) : (get : Building Builder).outcome b = (.ok b, b) := rfl

@[simp] theorem outcome_modify (f : Builder → Builder) (b : Builder) :
    (modify f : Building PUnit).outcome b = (.ok (), f b) := rfl

@[simp] theorem outcome_fail (cause : Cause) (b : Builder) :
    (fail cause : Building α).outcome b = (.error (.of cause), b) := rfl

@[simp] theorem outcome_operation (op : Builder → Except Draft.Fault α × Builder) (b : Builder) :
    (operation op).outcome b = ((op b).1.mapError fun fault => .of (.graph fault), (op b).2) := rfl

@[simp] theorem outcome_inForm (form : String) (work : Building α) (b : Builder) :
    (inForm form work).outcome b =
      ((work.outcome b).1.mapError (Failure.within form), (work.outcome b).2) := rfl

/-- Two pieces of work come to what two attempts come to one after the other, if each does. -/
theorem outcome_bind_eq {work : Building Unit} {next : Unit → Building Unit} {a : Attempt}
    {then' : Draft → Attempt} (first : work.outcome d.builder = a.outcome)
    (second : ∀ e, (next ()).outcome e.builder = (then' e).outcome) :
    (work >>= next).outcome d.builder = (a.andThen then').outcome := by
  obtain ⟨e, _ | f⟩ := a
  · rw [outcome_bind, first]
    exact second e
  · rw [outcome_bind, first]
    rfl

/-! ### Drawing -/

theorem enter_builder (source : StateId) (label : Label) (d : Draft) :
    d.builder.enter source label = (d.step source label).builder := by
  unfold Builder.enter
  rw [allocUnnamedState_builder]
  rfl

theorem addTransitionFrom_builder (source : Option StateId) (target : StateId) (label : Label)
    (d : Draft) : d.builder.addTransitionFrom source target label =
      (d.connectFrom source target label).builder := by
  cases source <;> rfl

theorem join_builder {thenEnd elseEnd : Option StateId} (h : ¬(thenEnd = none ∧ elseEnd = none))
    (d : Draft) : d.builder.join thenEnd elseEnd = (d.join thenEnd elseEnd).builder := by
  unfold Builder.join Draft.join
  rw [allocUnnamedState_builder, if_neg h]
  simp only [addTransitionFrom_builder]
  rfl

theorem outcome_nameCurrentState (name : String) (d : Draft) :
    (nameCurrentState name).outcome d.builder = (d.placeHere name).outcome := by
  unfold nameCurrentState placeHere
  rw [outcome_bind, outcome_get]
  show (if name = startLabel ∧ d.current = some initial then _ else _ : Building Unit).outcome _ = _
  by_cases idle : name = startLabel ∧ d.current = some initial
  · rw [if_pos idle, if_pos idle]
    rfl
  · rw [if_neg idle, if_neg idle, outcome_bind, outcome_operation, declareLabel_builder]
    cases placed : d.place name with
    | error fault => rfl
    | ok r =>
      obtain ⟨x, e⟩ := r
      have same : e.current = d.current := by
        obtain ⟨-, -, rfl⟩ := place_eq_ok_iff.mp placed
        show (d.reserve name).2.current = d.current
        rw [reserve_eq]
      show (Except.ok (), (e.builder.addTransitionFrom e.current x {}).setCurrent (some x)) = _
      rw [addTransitionFrom_builder, same]
      rfl

theorem outcome_fromCurrent_of_none {b : Builder} {form : String} {work : StateId → Building Unit}
    (ended : b.current = none) :
    (fromCurrent form work).outcome b = (.error (.of (.graph (.unreachable form))), b) := by
  cases b
  subst ended
  rfl

theorem outcome_fromCurrent_of_some {b : Builder} {form : String} {work : StateId → Building Unit}
    {x : StateId} (here : b.current = some x) :
    (fromCurrent form work).outcome b = (inForm form (work x)).outcome b := by
  cases b
  subst here
  rfl

theorem outcome_fromCurrent {form : String} {work : StateId → Building Unit}
    {next : StateId → Attempt}
    (h : ∀ x, d.current = some x → (inForm form (work x)).outcome d.builder = (next x).outcome) :
    (fromCurrent form work).outcome d.builder = (d.fromHere form next).outcome := by
  unfold fromHere
  cases here : d.current with
  | none => exact outcome_fromCurrent_of_none here
  | some x => exact (outcome_fromCurrent_of_some here).trans (h x here)

/-- A form whose work fails before the graph is changed draws what a misread form does. -/
theorem outcome_misread {form : String} {work : StateId → Building Unit} {cause : Cause}
    (h : ∀ x b, (work x).outcome b = (.error (.of cause), b)) :
    (fromCurrent form work).outcome d.builder =
      ((Statement.misread form cause).extend d).outcome := by
  refine outcome_fromCurrent fun x _ => ?_
  rw [outcome_inForm, h]
  rfl

theorem outcome_known_bind (result : Except Cause α) (next : α → Building β) (b : Builder) :
    (known result >>= next).outcome b =
      match result with
      | .ok a => (next a).outcome b
      | .error cause => (.error (.of cause), b) := by
  cases result <;> rfl

/-! ### Reading arguments -/

theorem readSend_unread (c : Call) : readSend c.unread =
    content (c.named ":message").1 Node.expectSymbol >>= fun message =>
      (Statement.readPairs ∅ (c.named ":message").2.unread.arguments).map (.send message) := by
  unfold readSend readMessage
  rw [Call.unread_named]
  rcases c.named ":message" with ⟨fault | n, e⟩
  · rfl
  · cases n <;> rfl

theorem readReceive_unread (c : Call) : readReceive c.unread =
    content (c.named ":message").1 Node.expectSymbol >>= fun message =>
      ((c.named ":message").2.finish.mapError .argument).map fun _ => .receive message := by
  unfold readReceive readMessage
  rw [Call.unread_named]
  rcases c.named ":message" with ⟨fault | n, e⟩
  · rfl
  · rw [← Call.unread_finish]
    cases n <;> rfl

theorem readJump_unread (c : Call) : readJump c.unread =
    content c.positional.1 Node.expectKeyword >>= fun label =>
      (c.positional.2.finish.mapError .argument).map fun _ => .jump label := by
  unfold readJump
  rw [Call.unread_positional]
  rcases c.positional with ⟨fault | n, e⟩
  · rfl
  · rw [← Call.unread_finish]
    cases n <;> rfl

theorem unread_cons {c : Call} {n : Node} {rest : List Node} (h : c.unread.arguments = n :: rest) :
    c.positional = (.ok n, c.advance 1) ∧ (c.advance 1).unread.arguments = rest := by
  have next : c.peek = some n := by rw [← Call.head?_unread, h, List.head?_cons]
  refine ⟨?_, ?_⟩
  · rw [Call.positional, next]
  · rw [Call.unread_of_peek_eq_some next] at h
    exact (List.cons.inj h).2

theorem unread_nil {c : Call} (h : c.unread.arguments = []) :
    c.positional.1 = .error .endOfArguments ∧ c.isExhausted = true := by
  have none : c.peek = none := by rw [← Call.head?_unread, h, List.head?_nil]
  refine ⟨?_, ?_⟩
  · rw [Call.positional, none]
  · rw [← Call.unread_isExhausted, Form.isExhausted, h]
    rfl

/-- One pair. -/
theorem readPairs_of_unread_cons {v : Valuation} {c : Call} {n : Node} {rest : List Node}
    (h : c.unread.arguments = n :: rest) : readPairs v c =
      (n.expectKeyword.mapError .argument >>= fun key =>
        ((c.advance 1).positional.1.mapError fun _ => .argument (.missingValue key)) >>=
          fun value =>
            if (v.find? key).isSome then .error (.argument (.duplicateKeyword key))
            else (Expression.ofNode value).mapError .expression >>= fun e =>
              readPairs (v.insert key e) (c.advance 1).positional.2) := by
  have left : ¬c.isExhausted = true := by
    rw [← Call.unread_isExhausted, Form.isExhausted, h]
    exact Bool.false_ne_true
  rw [readPairs, if_neg left, (unread_cons h).1]
  refine bind_congr fun key => bind_congr fun value => ?_
  split <;> rfl

/-- Pairs are read in place as they are from what is unread. -/
theorem readPairs_unread (v : Valuation) (ns : List Node) : ∀ {c : Call}, c.unread.arguments = ns →
    readPairs v c = Statement.readPairs v ns := by
  fun_induction Statement.readPairs v ns with
  | case1 v =>
    intro c h
    rw [readPairs, if_pos (unread_nil h).2]
  | case2 v key =>
    intro c h
    have behind := (unread_cons h).2
    rw [readPairs_of_unread_cons h, (unread_nil behind).1]
    rfl
  | case3 v key value rest taken =>
    intro c h
    obtain ⟨second, -⟩ := unread_cons (unread_cons h).2
    rw [readPairs_of_unread_cons h, second]
    exact if_pos taken
  | case4 v key value rest fresh kind wrong =>
    intro c h
    obtain ⟨second, -⟩ := unread_cons (unread_cons h).2
    rw [readPairs_of_unread_cons h, second]
    show (if _ then _ else (Expression.ofNode value).mapError Cause.expression >>= _) = _
    rw [if_neg fresh, wrong]
    rfl
  | case5 v key value rest fresh e right ih =>
    intro c h
    obtain ⟨second, behind⟩ := unread_cons (unread_cons h).2
    rw [readPairs_of_unread_cons h, second, ← ih behind]
    show (if _ then _ else (Expression.ofNode value).mapError Cause.expression >>= _) = _
    rw [if_neg fresh, right]
    rfl
  | case6 v n rest single several =>
    intro c h
    rw [readPairs_of_unread_cons h]
    cases n with
    | keyword key =>
      cases rest with
      | nil => exact (single key rfl rfl).elim
      | cons value rest => exact (several key value rest rfl rfl).elim
    | _ => rfl

/-! ### Forms -/

theorem outcome_send (c : Call) (d : Draft) (form : c.name = "!send") :
    (fromCurrent c.name (send c)).outcome d.builder =
      ((orMisread c.name (readSend c.unread)).extend d).outcome := by
  rw [readSend_unread, form, ← readPairs_unread _ _ rfl]
  cases message : content (c.named ":message").1 Node.expectSymbol with
  | error cause => exact outcome_misread fun x b => by rw [send, message, outcome_known_bind]
  | ok name =>
    cases pairs : readPairs ∅ (c.named ":message").2 with
    | error cause =>
      refine outcome_misread fun x b => ?_
      simp only [send, message, pairs, outcome_known_bind]
    | ok valuation =>
      refine outcome_fromCurrent fun x _ => ?_
      rw [outcome_inForm, send, message, pairs]
      show (Except.ok (), d.builder.enter x (.sending name valuation)) = _
      rw [enter_builder]
      rfl

theorem outcome_receive (c : Call) (d : Draft) (form : c.name = "?receive") :
    (fromCurrent c.name (receive c)).outcome d.builder =
      ((orMisread c.name (readReceive c.unread)).extend d).outcome := by
  rw [readReceive_unread, form]
  cases message : content (c.named ":message").1 Node.expectSymbol with
  | error cause => exact outcome_misread fun x b => by rw [receive, message, outcome_known_bind]
  | ok name =>
    cases whole : (c.named ":message").2.finish with
    | error fault =>
      refine outcome_misread fun x b => ?_
      simp only [receive, message, whole, outcome_known_bind, Except.mapError]
    | ok _ =>
      refine outcome_fromCurrent fun x _ => ?_
      rw [outcome_inForm, receive, message, whole]
      show (Except.ok (), d.builder.enter x (.receiving name)) = _
      rw [enter_builder]
      rfl

theorem outcome_jump (c : Call) (d : Draft) (form : c.name = "goto") :
    (fromCurrent c.name (jump c)).outcome d.builder =
      ((orMisread c.name (readJump c.unread)).extend d).outcome := by
  rw [readJump_unread, form]
  cases label : content c.positional.1 Node.expectKeyword with
  | error cause => exact outcome_misread fun x b => by rw [jump, label, outcome_known_bind]
  | ok name =>
    cases whole : c.positional.2.finish with
    | error fault =>
      refine outcome_misread fun x b => ?_
      simp only [jump, label, whole, outcome_known_bind, Except.mapError]
    | ok _ =>
      refine outcome_fromCurrent fun x _ => ?_
      rw [outcome_inForm, jump, label, whole]
      simp only [outcome_known_bind, Except.mapError]
      rw [outcome_bind, outcome_operation, jumpTarget_builder]
      rfl

/-! ### Branches -/

theorem join_moveTo (c a b : Option StateId) (d : Draft) : (d.moveTo c).join a b = d.join a b := by
  cases a <;> cases b <;> rfl

/-- What is left to do at the end of a branch. -/
theorem outcome_joined (thenEnd elseEnd : Option StateId) (d : Draft) :
    (if thenEnd = none ∧ elseEnd = none then modify (Builder.setCurrent none)
      else modify (Builder.join thenEnd elseEnd) : Building Unit).outcome d.builder =
      (Attempt.done (d.join thenEnd elseEnd)).outcome := by
  by_cases ended : thenEnd = none ∧ elseEnd = none
  · obtain ⟨rfl, rfl⟩ := ended
    rfl
  · rw [if_neg ended, outcome_modify, join_builder ended]
    rfl

variable {guard : Expression} {work work' : Building Unit} {s s' : Statement} {x : StateId}

theorem outcome_drawBranch (h : ∀ d, work.outcome d.builder = (s.extend d).outcome) (d : Draft) :
    (drawBranch x guard work none).outcome d.builder =
      ((s.extend (d.step x (.entering guard))).andThen fun e =>
        .done (e.join e.current none)).outcome := by
  unfold drawBranch
  rw [outcome_bind, outcome_modify, enter_builder]
  refine outcome_bind_eq (h _) fun e => ?_
  rw [← join_moveTo (some x)]
  exact outcome_joined e.current none (e.moveTo (some x))

theorem outcome_drawBranch_some (h : ∀ d, work.outcome d.builder = (s.extend d).outcome)
    (h' : ∀ d, work'.outcome d.builder = (s'.extend d).outcome) (d : Draft) :
    (drawBranch x guard work (some work')).outcome d.builder =
      ((s.extend (d.step x (.entering guard))).andThen fun d =>
        (s'.extend (d.step x (.passing guard))).andThen fun e =>
          .done (e.join d.current e.current)).outcome := by
  unfold drawBranch
  rw [outcome_bind, outcome_modify, enter_builder]
  refine outcome_bind_eq (h _) fun e => ?_
  show (modify (Builder.enter x (.passing guard)) >>= fun _ => work' >>= fun _ => get >>= fun c =>
    if e.current = none ∧ c.current = none then modify (Builder.setCurrent none)
    else modify (Builder.join e.current c.current) : Building Unit).outcome
      (e.moveTo (some x)).builder = _
  rw [outcome_bind, outcome_modify, enter_builder]
  exact outcome_bind_eq (h' _) fun f => outcome_joined e.current f.current f

theorem branch_of_error {c : Call} {translate : ∀ n ∈ c.arguments, Building Unit} {cause : Cause}
    (h : readBranch c = .error cause) : branch c x translate = fail cause := by
  unfold branch
  split
  · rename_i other
    obtain rfl := Except.error.inj (h.symm.trans other)
    rfl
  · rename_i other
    cases h.symm.trans other

theorem branch_of_ok {c : Call} {translate : Node → Building Unit} {consequent : Node}
    {alternative : Option Node} (h : readBranch c = .ok (guard, consequent, alternative)) :
    branch c x (fun n _ => translate n) =
      drawBranch x guard (translate consequent) (alternative.map translate) := by
  unfold branch
  split
  · rename_i other
    cases h.symm.trans other
  · rename_i other
    cases Except.ok.inj (h.symm.trans other)
    rw [Option.pmap_eq_map]

/-- Reading a branch whose guard has a meaning. -/
theorem readBranch_eq {g : Node} (h : Expression.ofNode g = .ok guard) (rest : List Node) :
    readBranch ⟨"if", g :: rest, 0⟩ =
      match rest with
      | [] => .error (.argument .endOfArguments)
      | [consequent] => .ok (guard, consequent, none)
      | [consequent, alternative] => .ok (guard, consequent, some alternative)
      | _ :: _ :: extra => .error (.argument (.trailing extra.length)) := by
  show ((Expression.ofNode g).mapError Cause.expression >>= _) = _
  rw [h]
  rcases rest with _ | ⟨consequent, _ | ⟨alternative, _ | ⟨third, extra⟩⟩⟩ <;> rfl

theorem readBranch_eq_error {g : Node} {kind : Node.Kind} (h : Expression.ofNode g = .error kind)
    (rest : List Node) : readBranch ⟨"if", g :: rest, 0⟩ = .error (.expression kind) := by
  show ((Expression.ofNode g).mapError Cause.expression >>= _) = _
  rw [h]
  rfl

/-- A branch comes to what its statement draws, if its arguments do. -/
theorem outcome_branch {arguments : List Node}
    (h : ∀ n ∈ arguments, ∀ d, (translate n).outcome d.builder = ((ofNode n).extend d).outcome)
    (d : Draft) :
    (fromCurrent "if" (branch ⟨"if", arguments, 0⟩ · fun n _ => translate n)).outcome d.builder =
      ((ofNode (.list (.symbol "if" :: arguments))).extend d).outcome := by
  have misread : ∀ cause, readBranch ⟨"if", arguments, 0⟩ = .error cause →
      ofNode (.list (.symbol "if" :: arguments)) = .misread "if" cause →
      (fromCurrent "if" (branch ⟨"if", arguments, 0⟩ · fun n _ => translate n)).outcome d.builder =
        ((ofNode (.list (.symbol "if" :: arguments))).extend d).outcome := by
    intro cause wrong spelt
    rw [spelt]
    exact outcome_misread fun x b => by rw [branch_of_error wrong, outcome_fail]
  cases arguments with
  | nil => exact misread _ rfl (by rw [ofNode])
  | cons g rest =>
    cases meaning : Expression.ofNode g with
    | error kind =>
      exact misread _ (readBranch_eq_error meaning rest) (Node.ofNode_unguarded meaning rest)
    | ok guard =>
      have read := readBranch_eq meaning rest
      rcases rest with _ | ⟨consequent, _ | ⟨alternative, _ | ⟨third, extra⟩⟩⟩
      · exact misread _ read (by rw [ofNode, guarded, meaning])
      · rw [Node.ofNode_branch meaning]
        refine outcome_fromCurrent fun x _ => ?_
        rw [outcome_inForm, branch_of_ok read, Option.map_none,
          outcome_drawBranch (h consequent (by simp)), Attempt.outcome_within]
      · rw [Node.ofNode_branchElse meaning]
        refine outcome_fromCurrent fun x _ => ?_
        rw [outcome_inForm, branch_of_ok read, Option.map_some,
          outcome_drawBranch_some (h consequent (by simp)) (h alternative (by simp)),
          Attempt.outcome_within]
      · refine misread _ read ?_
        rw [ofNode, guarded, meaning]
        exact List.cons_ne_nil third extra

theorem translate_of_error {children : List Node} {fault : Form.Fault}
    (h : Call.ofNodes children = .error fault) :
    translate (.list children) = fail (.argument fault) := by
  rw [translate]
  split
  · rename_i other
    obtain rfl := Except.error.inj (h.symm.trans other)
    rfl
  · rename_i other
    cases h.symm.trans other

theorem translate_of_ok {children : List Node} {c : Call} (h : Call.ofNodes children = .ok c) :
    translate (.list children) = translateCall c fun n _ => translate n := by
  rw [translate]
  split
  · rename_i other
    cases h.symm.trans other
  · rename_i other
    obtain rfl := Except.ok.inj (h.symm.trans other)
    rfl

theorem outcome_translateCall {name : String} {arguments : List Node}
    (h : ∀ n ∈ arguments, ∀ d, (translate n).outcome d.builder = ((ofNode n).extend d).outcome)
    (d : Draft) :
    (translateCall ⟨name, arguments, 0⟩ fun n _ => translate n).outcome d.builder =
      ((ofNode (.list (.symbol name :: arguments))).extend d).outcome := by
  by_cases branching : name = "if"
  · subst branching
    exact outcome_branch h d
  · rw [Node.ofNode_of_ne branching, ofForm, translateCall]
    by_cases sending : name = "!send"
    · rw [if_pos sending, if_pos sending]
      exact outcome_send ⟨name, arguments, 0⟩ d sending
    rw [if_neg sending, if_neg sending]
    by_cases receiving : name = "?receive"
    · rw [if_pos receiving, if_pos receiving]
      exact outcome_receive ⟨name, arguments, 0⟩ d receiving
    rw [if_neg receiving, if_neg receiving]
    by_cases jumping : name = "goto"
    · rw [if_pos jumping, if_pos jumping]
      exact outcome_jump ⟨name, arguments, 0⟩ d jumping
    rw [if_neg jumping, if_neg jumping, if_neg branching]
    by_cases reserved : name = "let" ∨ name = "select"
    · rw [if_pos reserved, if_pos reserved]
      rfl
    · rw [if_neg reserved, if_neg reserved]
      rfl

/-- **Translating a node is drawing its statement.** -/
theorem outcome_translate (n : Node) : ∀ d : Draft,
    (translate n).outcome d.builder = ((ofNode n).extend d).outcome := by
  induction n using Node.induction with
  | list children ih =>
    intro d
    cases children with
    | nil =>
      rw [translate_of_error rfl]
      rfl
    | cons head arguments =>
      cases head with
      | symbol name =>
        rw [translate_of_ok (c := ⟨name, arguments, 0⟩) rfl]
        exact outcome_translateCall (fun n hn => ih n (List.mem_cons_of_mem _ hn)) d
      | _ =>
        rw [translate_of_error rfl]
        rfl
  | keyword name =>
    intro d
    rw [translate]
    exact outcome_nameCurrentState name d
  | _ =>
    intro d
    rw [translate]
    · rfl
    all_goals simp

/-- **Translating nodes is drawing their statements.** -/
theorem outcome_translateAll (ns : List Node) : ∀ d : Draft,
    (translateAll ns).outcome d.builder = (extendAll (ns.map ofNode) d).outcome := by
  induction ns with
  | nil => exact fun _ => rfl
  | cons n rest ih => exact fun d => outcome_bind_eq (outcome_translate n d) ih

end Building

end ProtocolGraph
