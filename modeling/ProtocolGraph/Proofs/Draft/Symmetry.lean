import ProtocolGraph.Statement.Graph

/-!
# Symmetries of drawing

Drawing asks a draft only for the state of a name, for whether a label is placed, and for the end of
its path. A change of drafts that keeps these answers, when names are changed with it, is a
`Draft.Symmetry`. Drawing does not notice it: what is drawn after the change is what was drawn
before, changed.

* `Statement.relabel`, `Failure.relabel`: other names for the labels of a statement, and for the
  name that a failure says is given twice.
* `Symmetry.step`, `Symmetry.join` and so on: one law for each operation, from the few that a
  symmetry has to satisfy.
* **`Symmetry.extend`**, **`Symmetry.extendAll`**: drawing statements commutes with a symmetry,
  whether it fails or not.
-/

namespace ProtocolGraph

/-! ## Other names -/

/-- The cause with another name for the state that there is already. -/
def Cause.relabel (r : String → String) : Cause → Cause
  | .graph (.duplicateState name) => .graph (.duplicateState (r name))
  | cause => cause

/-- The failure with another name for the state that there is already. -/
def Failure.relabel (r : String → String) (f : Failure) : Failure :=
  { f with cause := f.cause.relabel r }

/-- The statement with other names for the labels that it places and jumps to. -/
def Statement.relabel (r : String → String) : Statement → Statement
  | .label name => .label (r name)
  | .send message valuation => .send message valuation
  | .receive message => .receive message
  | .jump target => .jump (r target)
  | .branch guard consequent => .branch guard (consequent.relabel r)
  | .branchElse guard consequent alternative =>
    .branchElse guard (consequent.relabel r) (alternative.relabel r)
  | .misread form cause => .misread form (cause.relabel r)
  | .foreign cause => .foreign (cause.relabel r)

/-- The attempt on a changed draft, with other names. -/
def Attempt.relabel (r : String → String) (f : Draft → Draft) (a : Attempt) : Attempt where
  draft := f a.draft
  failure := a.failure.map (Failure.relabel r)

theorem Cause.relabel_id (cause : Cause) : cause.relabel id = cause := by
  unfold relabel
  split <;> rfl

theorem Failure.relabel_id (f : Failure) : f.relabel id = f := by
  rw [relabel, Cause.relabel_id]

theorem Statement.relabel_id (s : Statement) : s.relabel id = s := by
  induction s with
  | branch guard consequent ih => rw [relabel, ih]
  | branchElse guard consequent alternative ihc iha => rw [relabel, ihc, iha]
  | misread form cause => rw [relabel, Cause.relabel_id]
  | foreign cause => rw [relabel, Cause.relabel_id]
  | _ => rfl

section Attempt

variable {r : String → String} {f : Draft → Draft} {a : Attempt}

theorem Attempt.andThen_relabel {next next' : Draft → Attempt}
    (h : ∀ d, next' (f d) = (next d).relabel r f) :
    (a.relabel r f).andThen next' = (a.andThen next).relabel r f := by
  obtain ⟨draft, failure⟩ := a
  cases failure with
  | none => exact h draft
  | some _ => rfl

theorem Attempt.within_relabel (form : String) :
    (a.relabel r f).within form = (a.within form).relabel r f := by
  obtain ⟨draft, failure⟩ := a
  cases failure <;> rfl

end Attempt

namespace Draft

/-- Drawing does not notice the change of drafts, when names are changed with it. -/
structure Symmetry (r : String → String) (f : Draft → Draft) : Prop where
  start : ∀ n, r n = startLabel ↔ n = startLabel
  current : ∀ d, (f d).current = d.current
  nextState : ∀ d, (f d).nextState = d.nextState
  addUnnamed : ∀ d, (f d).addState none = f (d.addState none)
  connect : ∀ t d, (f d).connect t = f (d.connect t)
  moveTo : ∀ c d, (f d).moveTo c = f (d.moveTo c)
  reserve : ∀ n d, (f d).reserve (r n) = ((d.reserve n).1, f (d.reserve n).2)
  placed : ∀ n d, r n ∈ (f d).placed ↔ n ∈ d.placed
  addPlaced : ∀ n d, { f d with placed := (f d).placed ++ [r n] } =
    f { d with placed := d.placed ++ [n] }

namespace Symmetry

variable {r : String → String} {f : Draft → Draft} (h : Symmetry r f) {d : Draft}

include h

/-! ## Operations -/

theorem step (x : StateId) (label : Label) : (f d).step x label = f (d.step x label) := by
  rw [Draft.step, h.nextState, h.addUnnamed, h.connect, h.moveTo, Draft.step]

theorem connectFrom (source : Option StateId) (target : StateId) (label : Label) :
    (f d).connectFrom source target label = f (d.connectFrom source target label) := by
  cases source with
  | none => rfl
  | some x => exact h.connect _ d

theorem join (a b : Option StateId) : (f d).join a b = f (d.join a b) := by
  unfold Draft.join
  rw [h.nextState, h.addUnnamed, h.connectFrom, h.connectFrom, h.moveTo, h.moveTo]
  split <;> rfl

theorem jump (x : StateId) (n : String) : (f d).jump x (r n) = f (d.jump x n) := by
  unfold Draft.jump
  rw [h.reserve]
  exact (congrArg (Draft.moveTo none) (h.connect _ _)).trans (h.moveTo _ _)

theorem placeHere (n : String) : (f d).placeHere (r n) = (d.placeHere n).relabel r f := by
  have here : r n = startLabel ∧ d.current = some initial ↔
      n = startLabel ∧ d.current = some initial := and_congr_left' (h.start n)
  unfold Draft.placeHere Draft.place
  rw [h.current, h.reserve]
  by_cases idle : n = startLabel ∧ d.current = some initial
  · rw [if_pos idle, if_pos (here.mpr idle)]
    rfl
  · rw [if_neg idle, if_neg (mt here.mp idle)]
    by_cases again : n ∈ d.placed
    · rw [if_pos again, if_pos ((h.placed n d).mpr again)]
      rfl
    · rw [if_neg again, if_neg (mt (h.placed n d).mp again)]
      simp only [h.addPlaced, h.connectFrom, h.moveTo]
      rfl

theorem fromHere {statement : String} {work work' : StateId → Attempt}
    (hw : ∀ x, work' x = (work x).relabel r f) :
    (f d).fromHere statement work' = (d.fromHere statement work).relabel r f := by
  unfold Draft.fromHere
  rw [h.current]
  cases d.current with
  | none => rfl
  | some x => exact hw x

/-! ## Statements -/

/-- **Drawing a statement commutes with a symmetry**, whether it fails or not. -/
theorem extend (s : Statement) (d : Draft) :
    (s.relabel r).extend (f d) = (s.extend d).relabel r f := by
  induction s generalizing d with
  | label name => exact h.placeHere name
  | send message valuation => exact h.fromHere fun x => congrArg Attempt.done (h.step x _)
  | receive message => exact h.fromHere fun x => congrArg Attempt.done (h.step x _)
  | jump target => exact h.fromHere fun x => congrArg Attempt.done (h.jump x target)
  | branch guard consequent ih =>
    refine h.fromHere fun x => ?_
    rw [← Attempt.within_relabel, h.step, ih]
    exact congrArg (Attempt.within "if") (Attempt.andThen_relabel fun e => by
      rw [h.current]
      exact congrArg Attempt.done (h.join _ _))
  | branchElse guard consequent alternative ihc iha =>
    refine h.fromHere fun x => ?_
    rw [← Attempt.within_relabel, h.step, ihc]
    refine congrArg (Attempt.within "if") (Attempt.andThen_relabel fun e => ?_)
    rw [h.step, iha]
    refine Attempt.andThen_relabel fun g => ?_
    rw [h.current, h.current]
    exact congrArg Attempt.done (h.join _ _)
  | misread form cause => exact h.fromHere fun _ => rfl
  | foreign cause => rfl

/-- **Drawing statements commutes with a symmetry**, whether it fails or not. -/
theorem extendAll (body : List Statement) (d : Draft) :
    Statement.extendAll (body.map (Statement.relabel r)) (f d) =
      (Statement.extendAll body d).relabel r f := by
  induction body generalizing d with
  | nil => rfl
  | cons s rest ih =>
    rw [List.map_cons, Statement.extendAll, Statement.extendAll, h.extend]
    exact Attempt.andThen_relabel ih

end Symmetry

end Draft

end ProtocolGraph
