import ProtocolGraph.Proofs.Statement.Body
import ProtocolGraph.Proofs.Statement.Reading

/-!
# Where a statement fails

A statement that cannot be drawn fails at one place: the statement itself, or one inside it, some
branches down. `Node.Reaches` follows the drawing down to it, in the terms of nodes, and the forms
that the failure names are read off the way.

* `Node.ownForms`: what a failure at the node itself names. Only a form with the name of a statement
  names itself, and only where control may come.
* `Node.Reaches.failure_eq`: a failure further down is the failure of the whole, inside one `if` for
  each branch on the way.
* **`Node.exists_reaches_of_failure`**: a drawing that fails does so at a node that it reaches and
  that fails by itself (`Node.FailsHere`).
* `Statement.failure_extendAll_iff`: statements fail with the first of them that fails.
-/

namespace ProtocolGraph

namespace Node

/-! ## The way to a failure -/

/-- Drawing the first node into the first draft comes to the second node, this many branches down,
and is to draw it into the second draft. The consequent of a branch comes first, the alternative
when the consequent has been drawn. -/
inductive Reaches : Node → Draft → Nat → Node → Draft → Prop
  | here (n d) : Reaches n d 0 n d
  | consequent {guard n others condition d x depth m e}
      (read : Expression.ofNode guard = .ok condition) (few : others.length ≤ 1)
      (standing : d.current = some x)
      (inner : Reaches n (d.step x (.entering condition)) depth m e) :
      Reaches (.list (.symbol "if" :: guard :: n :: others)) d (depth + 1) m e
  | alternative {guard n other condition d x f depth m e}
      (read : Expression.ofNode guard = .ok condition) (standing : d.current = some x)
      (drawn : (Statement.ofNode n).extend (d.step x (.entering condition)) = .done f)
      (inner : Reaches other (f.step x (.passing condition)) depth m e) :
      Reaches (.list [.symbol "if", guard, n, other]) d (depth + 1) m e

/-- The forms that a failure at the node itself names, if control may come there or not: the form
that the node is, if it is a statement. -/
def ownForms (reachable : Bool) : Node → List String
  | .list (.symbol name :: _) =>
    if reachable ∧ name ∈ ["if", "!send", "?receive", "goto"] then [name] else []
  | _ => []

/-- The node itself cannot be drawn, for this cause: it comes to no branch, changes nothing, and
fails inside its own form alone. -/
structure FailsHere (n : Node) (d : Draft) (cause : Cause) : Prop where
  failed : (Statement.ofNode n).extend d = ⟨d, some ⟨n.ownForms d.current.isSome, cause⟩⟩
  unentered : ∀ depth m e, ¬n.Reaches d (depth + 1) m e

end Node

namespace Attempt

variable {a : Attempt} {d : Draft} {f : Failure} {cause : Cause} {form : String}

/-- Work fails in its first part, or in the second when the first is done. -/
theorem failure_andThen_eq_some_iff {next : Draft → Attempt} :
    (a.andThen next).failure = some f ↔
      a.failure = some f ∨ ∃ e, a = done e ∧ (next e).failure = some f := by
  obtain ⟨draft, _ | g⟩ := a
  · simp [andThen, done]
  · simp [andThen, done]

theorem failure_within_eq_some_iff :
    (a.within form).failure = some f ↔ ∃ g, a.failure = some g ∧ g.within form = f := by
  simp [within]

theorem failed_of_failure (h : (failed cause d).failure = some f) :
    failed cause d = failed f.cause d := by
  cases h
  rfl

end Attempt

namespace Statement

open Draft Node

variable {s : Statement} {n : Node} {d : Draft} {x : StateId} {f : Failure} {form : String}

/-! ## Statements that fail by themselves -/

theorem fromHere_of_standing {work : StateId → Attempt} (standing : d.current = some x) :
    d.fromHere form work = work x := by
  rw [fromHere, standing]

/-- A label fails by itself. -/
theorem placeHere_of_failure {name : String} (h : (d.placeHere name).failure = some f) :
    d.placeHere name = .failed f.cause d := by
  unfold placeHere at h ⊢
  split at h
  · cases h
  · rename_i other
    rw [if_neg other]
    cases placed : d.place name with
    | error fault =>
      simp only [placed] at h
      exact Attempt.failed_of_failure h
    | ok r =>
      simp only [placed] at h
      cases h

/-- Where control cannot come, a statement fails by itself and names no form. -/
theorem extend_of_unreachable (lost : d.current = none) (h : (s.extend d).failure = some f) :
    s.extend d = .failed f.cause d := by
  cases s with
  | label name => exact placeHere_of_failure h
  | foreign cause => exact Attempt.failed_of_failure h
  | _ =>
    rw [extend, fromHere, lost] at h ⊢
    exact Attempt.failed_of_failure h

theorem extend_misread {cause : Cause} (standing : d.current = some x)
    (h : ((misread form cause).extend d).failure = some f) :
    (misread form cause).extend d = (Attempt.failed f.cause d).within form := by
  rw [extend, fromHere_of_standing standing] at h ⊢
  obtain ⟨g, hg, rfl⟩ := Attempt.failure_within_eq_some_iff.mp h
  have same : Attempt.failed cause d = .failed g.cause d := Attempt.failed_of_failure hg
  exact congrArg (Attempt.within form) same

/-- Where control may come, a form that would be drawn fails only if it was misread. -/
theorem extend_orMisread {r : Except Cause Statement} (standing : d.current = some x)
    (draws : ∀ s, r = .ok s → ∃ e, s.extend d = .done e)
    (h : ((orMisread form r).extend d).failure = some f) :
    (orMisread form r).extend d = (Attempt.failed f.cause d).within form := by
  cases r with
  | error cause => exact extend_misread standing h
  | ok s =>
    obtain ⟨e, drawn⟩ := draws s rfl
    rw [orMisread, drawn] at h
    cases h

theorem extend_guarded {guard : Node} {statement : Expression → Statement}
    (standing : d.current = some x)
    (misread : ∀ condition, Expression.ofNode guard = .ok condition →
      ∃ cause, statement condition = .misread "if" cause)
    (h : ((guarded guard statement).extend d).failure = some f) :
    (guarded guard statement).extend d = (Attempt.failed f.cause d).within "if" := by
  unfold guarded at h ⊢
  cases read : Expression.ofNode guard with
  | error kind =>
    rw [read] at h
    exact extend_misread standing h
  | ok condition =>
    obtain ⟨cause, heq⟩ := misread condition read
    rw [read] at h
    simp only [heq] at h ⊢
    exact extend_misread standing h

/-! What is read as an exchange or a jump can be drawn wherever control may come. -/

section Read

variable {g : Form}

theorem exists_extend_of_readSend (standing : d.current = some x) (read : readSend g = .ok s) :
    ∃ e, s.extend d = .done e := by
  obtain ⟨message, valuation, rfl⟩ := exists_send_of_read read
  exact ⟨_, fromHere_of_standing standing⟩

theorem exists_extend_of_readReceive (standing : d.current = some x)
    (read : readReceive g = .ok s) : ∃ e, s.extend d = .done e := by
  obtain ⟨message, rfl⟩ := exists_receive_of_read read
  exact ⟨_, fromHere_of_standing standing⟩

theorem exists_extend_of_readJump (standing : d.current = some x) (read : readJump g = .ok s) :
    ∃ e, s.extend d = .done e := by
  obtain ⟨target, rfl⟩ := exists_jump_of_read read
  exact ⟨_, fromHere_of_standing standing⟩

end Read

/-- Where control may come, a form that is no branch fails inside itself if it has the name of a
statement, and otherwise names no form. -/
theorem extend_ofForm {name : String} {arguments : List Node} (standing : d.current = some x)
    (other : name ≠ "if") (h : ((ofForm ⟨name, arguments⟩).extend d).failure = some f) :
    (ofForm ⟨name, arguments⟩).extend d =
      ⟨d, some ⟨(list (.symbol name :: arguments)).ownForms true, f.cause⟩⟩ := by
  unfold ofForm at h ⊢
  split_ifs at h ⊢ with send receive jump reserved
  · obtain rfl : name = "!send" := send
    exact extend_orMisread standing (fun s => exists_extend_of_readSend standing) h
  · obtain rfl : name = "?receive" := receive
    exact extend_orMisread standing (fun s => exists_extend_of_readReceive standing) h
  · obtain rfl : name = "goto" := jump
    exact extend_orMisread standing (fun s => exists_extend_of_readJump standing) h
  all_goals
    have nameless : (list (.symbol name :: arguments)).ownForms true = [] := by
      simp_all [ownForms]
    rw [nameless]
    exact Attempt.failed_of_failure h

/-- A form of the name `if` that comes to no branch was misread. -/
theorem extend_unentered_if {arguments : List Node} (standing : d.current = some x)
    (unentered : ∀ depth m e,
      ¬(list (.symbol "if" :: arguments)).Reaches d (depth + 1) m e)
    (h : ((ofNode (.list (.symbol "if" :: arguments))).extend d).failure = some f) :
    (ofNode (.list (.symbol "if" :: arguments))).extend d =
      (Attempt.failed f.cause d).within "if" := by
  rcases arguments with _ | ⟨guard, _ | ⟨consequent, others⟩⟩
  · exact extend_misread standing h
  · exact extend_guarded standing (fun _ _ => ⟨_, rfl⟩) h
  · have crowded : ∀ condition, Expression.ofNode guard = .ok condition → 1 < others.length :=
      fun condition read => by
        by_contra few
        exact unentered 0 _ _ (.consequent read (by omega) standing (.here _ _))
    rcases others with _ | ⟨alternative, _ | ⟨extra, rest⟩⟩
    · refine extend_guarded standing (fun condition read => ?_) h
      exact absurd (crowded condition read) (by simp)
    · refine extend_guarded standing (fun condition read => ?_) h
      exact absurd (crowded condition read) (by simp)
    · exact extend_guarded standing (fun _ _ => ⟨_, rfl⟩) h

/-- **A node that comes to no branch** fails by itself. -/
theorem failsHere_of_unentered (unentered : ∀ depth m e, ¬n.Reaches d (depth + 1) m e)
    (h : ((ofNode n).extend d).failure = some f) : n.FailsHere d f.cause := by
  refine ⟨?_, unentered⟩
  cases standing : d.current with
  | none =>
    have formless : n.ownForms false = [] := by
      unfold ownForms
      split <;> simp
    rw [Option.isSome_none, formless]
    exact extend_of_unreachable standing h
  | some x =>
    cases n with
    | keyword name => exact placeHere_of_failure h
    | list elements =>
      rcases elements with _ | ⟨head, arguments⟩
      · exact Attempt.failed_of_failure h
      · cases head with
        | symbol name =>
          by_cases branch : name = "if"
          · subst branch
            exact extend_unentered_if standing unentered h
          · rw [ofNode_of_ne branch] at h ⊢
            exact extend_ofForm standing branch h
        | _ => exact Attempt.failed_of_failure h
    | _ => exact Attempt.failed_of_failure h

end Statement

namespace Node

open Statement

variable {n m guard consequent alternative : Node} {condition : Expression} {d e : Draft}
  {x : StateId} {depth : Nat} {f : Failure}

/-! ## Branches that fail -/

theorem failure_branch_iff (read : Expression.ofNode guard = .ok condition)
    (standing : d.current = some x) :
    ((ofNode (.list [.symbol "if", guard, consequent])).extend d).failure = some f ↔
      ∃ g, ((ofNode consequent).extend (d.step x (.entering condition))).failure = some g ∧
        g.within "if" = f := by
  rw [ofNode_branch read, extend, fromHere_of_standing standing]
  simp [Attempt.failure_within_eq_some_iff, Attempt.failure_andThen_eq_some_iff, Attempt.done]

theorem failure_branchElse_iff (read : Expression.ofNode guard = .ok condition)
    (standing : d.current = some x) :
    ((ofNode (.list [.symbol "if", guard, consequent, alternative])).extend d).failure = some f ↔
      ∃ g, (((ofNode consequent).extend (d.step x (.entering condition))).failure = some g ∨
        ∃ e, (ofNode consequent).extend (d.step x (.entering condition)) = .done e ∧
          ((ofNode alternative).extend (e.step x (.passing condition))).failure = some g) ∧
        g.within "if" = f := by
  rw [ofNode_branchElse read, extend, fromHere_of_standing standing]
  simp [Attempt.failure_within_eq_some_iff, Attempt.failure_andThen_eq_some_iff, Attempt.done]

/-- A failure of the consequent is one of the branch. -/
theorem failure_of_consequent {others : List Node} (read : Expression.ofNode guard = .ok condition)
    (few : others.length ≤ 1) (standing : d.current = some x)
    (failed : ((ofNode consequent).extend (d.step x (.entering condition))).failure = some f) :
    ((ofNode (.list (.symbol "if" :: guard :: consequent :: others))).extend d).failure =
      some (f.within "if") := by
  rcases others with _ | ⟨alternative, _ | _⟩
  · exact (failure_branch_iff read standing).mpr ⟨f, failed, rfl⟩
  · exact (failure_branchElse_iff read standing).mpr ⟨f, .inl failed, rfl⟩
  · simp at few

/-! ## Statements that fail further down -/

/-- **A failure on the way** is the failure of the whole, inside as many branches. -/
theorem Reaches.failure_eq (h : n.Reaches d depth m e)
    (failed : ((ofNode m).extend e).failure = some f) :
    ((ofNode n).extend d).failure = some ⟨List.replicate depth "if" ++ f.forms, f.cause⟩ := by
  induction h with
  | here => exact failed
  | consequent read few standing _ ih => exact failure_of_consequent read few standing (ih failed)
  | alternative read standing drawn _ ih =>
    exact (failure_branchElse_iff read standing).mpr ⟨_, .inr ⟨_, drawn, ih failed⟩, rfl⟩

/-- Only a branch whose condition can be read comes to a node inside it. -/
theorem Reaches.exists_branch (h : n.Reaches d (depth + 1) m e) :
    ∃ guard consequent others condition x,
      n = .list (.symbol "if" :: guard :: consequent :: others) ∧ others.length ≤ 1 ∧
        Expression.ofNode guard = .ok condition ∧ d.current = some x := by
  cases h with
  | consequent read few standing => exact ⟨_, _, _, _, _, rfl, few, read, standing⟩
  | alternative read standing => exact ⟨_, _, _, _, _, rfl, Nat.le_refl 1, read, standing⟩

/-- A drawing that fails comes to a node that fails by itself. -/
theorem exists_failsHere (n : Node) : ∀ {d : Draft} {f : Failure},
    ((ofNode n).extend d).failure = some f →
      ∃ depth m e cause, n.Reaches d depth m e ∧ m.FailsHere e cause := by
  -- on the way down, a branch that fails has a consequent or an alternative that does
  induction n using Node.induction with
  | list elements ih =>
    intro d f h
    by_cases entered : ∃ depth m e, (list elements).Reaches d (depth + 1) m e
    · obtain ⟨depth, m, e, reached⟩ := entered
      obtain ⟨guard, consequent, others, condition, x, heq, few, read, standing⟩ :=
        reached.exists_branch
      cases heq
      have descend : ∀ {f}, ((ofNode consequent).extend (d.step x (.entering condition))).failure =
          some f → ∃ depth m e cause, (list (.symbol "if" :: guard :: consequent :: others)).Reaches
            d depth m e ∧ m.FailsHere e cause := fun failed => by
        obtain ⟨depth, m, e, cause, inner, fails⟩ := ih consequent (by simp) failed
        exact ⟨_, m, e, cause, .consequent read few standing inner, fails⟩
      rcases others with _ | ⟨alternative, _ | _⟩
      · obtain ⟨g, failed, -⟩ := (failure_branch_iff read standing).mp h
        exact descend failed
      · obtain ⟨g, failed | ⟨e, drawn, failed⟩, -⟩ := (failure_branchElse_iff read standing).mp h
        · exact descend failed
        · obtain ⟨depth, m, e, cause, inner, fails⟩ := ih alternative (by simp) failed
          exact ⟨_, m, e, cause, .alternative read standing drawn inner, fails⟩
      · simp at few
    · simp only [not_exists] at entered
      exact ⟨0, _, d, f.cause, .here _ _, failsHere_of_unentered entered h⟩
  | _ =>
    intro d f h
    exact ⟨0, _, d, f.cause, .here _ _, failsHere_of_unentered (fun _ _ _ => nofun) h⟩

/-- **A drawing that fails** does so at a node that it comes to and that fails by itself, inside the
branches on the way and the node's own form. -/
theorem exists_reaches_of_failure (h : ((ofNode n).extend d).failure = some f) :
    ∃ depth m e, n.Reaches d depth m e ∧ m.FailsHere e f.cause ∧
      f.forms = List.replicate depth "if" ++ m.ownForms e.current.isSome := by
  obtain ⟨depth, m, e, cause, reached, fails⟩ := n.exists_failsHere h
  have seen := reached.failure_eq (congrArg Attempt.failure fails.failed)
  obtain rfl := Option.some.inj (h.symm.trans seen)
  exact ⟨depth, m, e, reached, fails, rfl⟩

end Node

/-- **Statements fail with the first of them that fails**; those before it are drawn. -/
theorem Statement.failure_extendAll_iff {body : List Statement} {d : Draft} {f : Failure} :
    (extendAll body d).failure = some f ↔ ∃ before s after e,
      body = before ++ s :: after ∧ extendAll before d = .done e ∧
        (s.extend e).failure = some f := by
  constructor
  · intro h
    induction body generalizing d with
    | nil => cases h
    | cons s rest ih =>
      rw [extendAll] at h
      rcases Attempt.failure_andThen_eq_some_iff.mp h with failed | ⟨e, drawn, failed⟩
      · exact ⟨[], s, rest, d, rfl, rfl, failed⟩
      · obtain ⟨before, t, after, e', rfl, later, failed⟩ := ih failed
        exact ⟨s :: before, t, after, e', rfl, extendAll_cons_eq_done_iff.mpr ⟨e, drawn, later⟩,
          failed⟩
  · rintro ⟨before, s, after, e, rfl, drawn, failed⟩
    rw [extendAll_append, drawn, Attempt.done_andThen, extendAll,
      Attempt.failure_andThen_eq_some_iff]
    exact .inl failed

end ProtocolGraph
