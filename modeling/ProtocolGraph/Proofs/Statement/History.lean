import ProtocolGraph.Draft.Edit

/-!
# The operations that draw a statement

Drawing a statement is a history of the draft: it comes down to operations that create states, draw
transitions and move the end of the path, one after the other. A history that breaks off shows the
draft as it is in the midst of drawing.

* `Statement.edits`, `Statement.editsAll`: the operations that draw statements, up to the first
  statement that fails.
* **`Statement.run_edits`**, `Statement.run_editsAll`: they leave the draft that drawing leaves,
  whether it fails or not.
-/

namespace ProtocolGraph

/-! ## Parts of the drawing -/

namespace Edit

open Draft

/-- The operations of `Draft.step`. -/
def toStep (source : StateId) (label : Label) (d : Draft) : List Edit :=
  [addUnnamed, connect ⟨source, d.nextState, label⟩, moveTo (some d.nextState)]

/-- The operations of `Draft.connectFrom`. -/
def toConnectFrom (source : Option StateId) (target : StateId) (label : Label) : List Edit :=
  (source.map fun x => connect ⟨x, target, label⟩).toList

/-- The operations of `Draft.join`. -/
def toJoin (consequent alternative : Option StateId) (d : Draft) : List Edit :=
  if consequent = none ∧ alternative = none then [moveTo none]
  else
    addUnnamed :: (toConnectFrom consequent d.nextState (.leaving "ifend") ++
      toConnectFrom alternative d.nextState (.leaving "elseend")) ++ [moveTo (some d.nextState)]

/-- The operations of `Draft.placeHere`. -/
def toPlaceHere (name : String) (d : Draft) : List Edit :=
  if name = startLabel ∧ d.current = some Draft.initial then []
  else
    place name :: match d.place name with
      | .error _ => []
      | .ok (id, _) => toConnectFrom d.current id {} ++ [moveTo (some id)]

/-- The operations of `Draft.jump`. -/
def toJump (source : StateId) (target : String) (d : Draft) : List Edit :=
  [reserve target, connect ⟨source, (d.reserve target).1, {}⟩, moveTo none]

/-- The operations of work from the end of the path, if control may come there. -/
def fromHere (d : Draft) (work : StateId → List Edit) : List Edit :=
  match d.current with
  | none => []
  | some source => work source

/-- The operations of more work, unless the attempt failed. -/
def after (a : Attempt) (next : Draft → List Edit) : List Edit :=
  match a.failure with
  | none => next a.draft
  | some _ => []

variable {d e : Draft} {a : Attempt} {edits : List Edit}

theorem run_toStep (source : StateId) (label : Label) (d : Draft) :
    run (toStep source label d) d = d.step source label := rfl

theorem run_toJump (source : StateId) (target : String) (d : Draft) :
    run (toJump source target d) d = d.jump source target := rfl

theorem run_toConnectFrom (source : Option StateId) (target : StateId) (label : Label) (d : Draft) :
    run (toConnectFrom source target label) d = d.connectFrom source target label := by
  cases source <;> rfl

theorem run_toJoin (consequent alternative : Option StateId) (d : Draft) :
    run (toJoin consequent alternative d) d = d.join consequent alternative := by
  unfold toJoin join
  split
  · rfl
  · rw [run_append]
    show (run (_ ++ _) (d.addState none)).moveTo _ = _
    rw [run_append, run_toConnectFrom, run_toConnectFrom]

theorem run_toPlaceHere (name : String) (d : Draft) :
    run (toPlaceHere name d) d = (d.placeHere name).draft := by
  unfold toPlaceHere placeHere
  split
  · rfl
  · cases placed : d.place name with
    | error fault => exact congrArg Prod.snd (apply_place_of_error placed)
    | ok r =>
      show run _ ((place name).apply d).2 = _
      rw [apply_place_of_ok placed, run_append, run_toConnectFrom]
      rfl

theorem run_fromHere {work : StateId → List Edit} {statement : String} {next : StateId → Attempt}
    (h : ∀ x, run (work x) d = (next x).draft) :
    run (fromHere d work) d = (d.fromHere statement next).draft := by
  unfold fromHere Draft.fromHere
  cases d.current with
  | none => rfl
  | some x => exact h x

theorem run_append_after {next : Draft → List Edit} {work : Draft → Attempt}
    (first : run edits d = a.draft) (later : ∀ e, run (next e) e = (work e).draft) :
    run (edits ++ after a next) d = (a.andThen work).draft := by
  rw [run_append, first]
  unfold after Attempt.andThen
  cases a.failure with
  | none => exact later _
  | some f => rfl

end Edit

namespace Statement

open Edit

/-! ## The whole drawing -/

/-- The operations that draw the statement into the draft, up to where this fails. -/
def edits : Statement → Draft → List Edit
  | .label name, d => toPlaceHere name d
  | .send message valuation, d => fromHere d fun x => toStep x (.sending message valuation) d
  | .receive message, d => fromHere d fun x => toStep x (.receiving message) d
  | .jump target, d => fromHere d fun x => toJump x target d
  | .branch guard consequent, d =>
    fromHere d fun x =>
      let entered := d.step x (.entering guard)
      toStep x (.entering guard) d ++ (consequent.edits entered ++
        after (consequent.extend entered) fun d => toJoin d.current none d)
  | .branchElse guard consequent alternative, d =>
    fromHere d fun x =>
      let entered := d.step x (.entering guard)
      toStep x (.entering guard) d ++ (consequent.edits entered ++
        after (consequent.extend entered) fun d =>
          let passed := d.step x (.passing guard)
          toStep x (.passing guard) d ++ (alternative.edits passed ++
            after (alternative.extend passed) fun e => toJoin d.current e.current e))
  | .misread _ _, _ | .foreign _, _ => []

/-- The operations that draw statements into the draft, up to the first that fails. -/
def editsAll : List Statement → Draft → List Edit
  | [], _ => []
  | s :: rest, d => s.edits d ++ after (s.extend d) (editsAll rest)

/-- **The operations that draw a statement** leave what drawing it leaves, whether it fails or
not. -/
theorem run_edits (s : Statement) : ∀ d : Draft, run (s.edits d) d = (s.extend d).draft := by
  induction s with
  | label name => exact fun d => run_toPlaceHere name d
  | send message valuation => exact fun d => run_fromHere fun x => run_toStep x _ d
  | receive message => exact fun d => run_fromHere fun x => run_toStep x _ d
  | jump target => exact fun d => run_fromHere fun x => run_toJump x target d
  | branch guard consequent ih =>
    intro d
    refine run_fromHere fun x => ?_
    rw [run_append, run_toStep]
    exact run_append_after (ih _) fun e => run_toJoin e.current none e
  | branchElse guard consequent alternative ihc iha =>
    intro d
    refine run_fromHere fun x => ?_
    rw [run_append, run_toStep]
    refine run_append_after (ihc _) fun e => ?_
    rw [run_append, run_toStep]
    exact run_append_after (iha _) fun f => run_toJoin e.current f.current f
  | misread form cause =>
    intro d
    unfold extend Draft.fromHere
    cases d.current <;> rfl
  | foreign cause => exact fun d => rfl

theorem run_editsAll (body : List Statement) (d : Draft) :
    run (editsAll body d) d = (extendAll body d).draft := by
  induction body generalizing d with
  | nil => rfl
  | cons s rest ih => exact run_append_after (run_edits s d) ih

end Statement

end ProtocolGraph
