import Mathlib.Data.List.Induction
import ProtocolGraph.Proofs.Declaration.Grammar
import ProtocolGraph.Proofs.Draft.Registry

/-!
# Scopes nest

A history of a draft opens scopes and closes them, and binds names in the innermost one. Which
variable a name stands for is known from the history alone, without the stack of scopes.

* `Edit.level`: how many scopes are open inside a scope after some operations, as long as it is open
  itself. Operations are `Balanced` if they close the scopes that they open and no other.
* `Edit.Inside`: an operation of a certain kind took place in a scope that is still open, so many
  levels from the innermost one. `Edit.OpenAt` and `Edit.BoundAt` say this of opening a scope and of
  binding a variable.
* `Edit.Rescopes`: all that an operation can do to scopes and variables.
* `Edit.openAt_iff`, `Edit.boundAt_iff`: the stack of scopes holds what the history says.
* **`Edit.scopes_nest`**: balanced operations leave no trace in what names stand for; the innermost
  binding counts; a name is bound once in a scope; variables are numbered as they are bound, and
  closing a scope frees no number.
-/

namespace ProtocolGraph

namespace Draft

variable {d : Draft} {n : String} {v : Variable} {fault : Fault}

/-! ## Binding and resolving -/

/-- The variable is bound in the scope that so many levels lie inside of. -/
def BindsAt (d : Draft) (k : Nat) (v : Variable) : Prop :=
  ∃ scope, d.scopes[k]? = some scope ∧ v ∈ scope

/-- The names that a scope binds differ. -/
def BindsOnce (d : Draft) : Prop :=
  ∀ scope ∈ d.scopes, (scope.map Variable.name).Nodup

/-- **A name is not bound** where no scope is open, or the innermost one binds it. -/
theorem bind_eq_error_iff : d.bind n = .error fault ↔
    fault = .noOpenScope ∧ d.scopes = [] ∨
      fault = .duplicateVariable n ∧ ∃ v, d.BindsAt 0 v ∧ v.name = n := by
  unfold bind BindsAt
  cases d.scopes with
  | nil => simp [eq_comm]
  | cons scope outer =>
    simp only [List.any_eq_true, beq_iff_eq, List.getElem?_cons_zero, Option.some.injEq,
      exists_eq_left']
    split
    · rename_i taken
      simp only [Except.error.injEq, taken, and_true, reduceCtorEq, and_false, false_or]
      exact eq_comm
    · rename_i fresh
      simp [fresh]

/-- The first variable of a name is the only one, where names differ. -/
theorem find?_name_eq_some_iff {scope : List Variable} (once : (scope.map Variable.name).Nodup) :
    scope.find? (·.name == n) = some v ↔ v ∈ scope ∧ v.name = n := by
  constructor
  · exact fun h => ⟨List.mem_of_find?_eq_some h, by simpa using List.find?_some h⟩
  · rintro ⟨hv, rfl⟩
    cases hw : scope.find? (·.name == v.name) with
    | none => exact absurd (beq_self_eq_true v.name) (List.find?_eq_none.mp hw v hv)
    | some w =>
      have same : w.name = v.name := by simpa using List.find?_some hw
      rw [List.inj_on_of_nodup_map once (List.mem_of_find?_eq_some hw) hv same]

theorem find?_name_eq_none_iff {scope : List Variable} :
    scope.find? (·.name == n) = none ↔ ∀ v ∈ scope, v.name ≠ n := by
  simp

/-- **A name stands for** the variable of this name in the innermost scope that has one. -/
theorem BindsOnce.resolve_eq_ok_iff (once : d.BindsOnce) : d.resolve n = .ok v ↔
    v.name = n ∧ ∃ k, d.BindsAt k v ∧ ∀ j < k, ∀ w, d.BindsAt j w → w.name ≠ n := by
  have found : d.resolve n = .ok v ↔
      d.scopes.findSome? (·.find? (·.name == n)) = some v := by
    unfold resolve
    split <;> simp [*]
  rw [found, List.findSome?_eq_some_iff]
  constructor
  · rintro ⟨inner, scope, outer, scopes, here, before⟩
    obtain ⟨hv, name⟩ := (find?_name_eq_some_iff (once scope (by simp [scopes]))).mp here
    refine ⟨name, inner.length, ⟨scope, by simp [scopes], hv⟩, ?_⟩
    rintro j hj w ⟨scope', at_j, hw⟩
    rw [scopes, List.getElem?_append_left hj] at at_j
    exact find?_name_eq_none_iff.mp (before _ (List.mem_of_getElem? at_j)) w hw
  · rintro ⟨name, k, ⟨scope, at_k, hv⟩, before⟩
    obtain ⟨hk, rfl⟩ := List.getElem?_eq_some_iff.mp at_k
    refine ⟨d.scopes.take k, d.scopes[k], d.scopes.drop (k + 1), ?_, ?_, fun scope' hs => ?_⟩
    · rw [List.getElem_cons_drop, List.take_append_drop]
    · exact (find?_name_eq_some_iff (once _ (List.getElem_mem hk))).mpr ⟨hv, name⟩
    · obtain ⟨j, hj, rfl⟩ := List.mem_take_iff_getElem.mp hs
      have within : j < k := by omega
      exact find?_name_eq_none_iff.mpr fun w hw =>
        before j within w ⟨_, List.getElem?_eq_getElem _, hw⟩

theorem resolve_eq_error_iff : d.resolve n = .error fault ↔
    fault = .unresolvedVariable n ∧ ∀ k v, d.BindsAt k v → v.name ≠ n := by
  have lost : d.scopes.findSome? (·.find? (·.name == n)) = none ↔
      ∀ k v, d.BindsAt k v → v.name ≠ n := by
    simp only [List.findSome?_eq_none_iff, find?_name_eq_none_iff, BindsAt]
    constructor
    · rintro h k v ⟨scope, at_k, hv⟩
      exact h scope (List.mem_of_getElem? at_k) v hv
    · intro h scope hs v hv
      obtain ⟨k, at_k⟩ := List.getElem?_of_mem hs
      exact h k v ⟨scope, at_k, hv⟩
  rw [← lost]
  unfold resolve
  cases d.scopes.findSome? (·.find? (·.name == n)) with
  | none => simp [eq_comm]
  | some w => simp

end Draft

namespace Edit

open Draft

variable {d e : Draft} {n : String} {v : Variable} {edit : Edit} {edits rest : List Edit}
  {j k : Nat}

/-! ## Levels -/

/-- How many scopes are open inside a scope after the operation, if it is still open; `k` is how
many there were before. -/
def shift : Edit → Nat → Option Nat
  | openScope, k => some (k + 1)
  | closeScope, 0 => none
  | closeScope, k + 1 => some k
  | _, k => some k

theorem shift_closeScope_eq_some_iff : closeScope.shift j = some k ↔ j = k + 1 := by
  cases j <;> simp [shift]

/-- How many scopes are open inside a scope after the operations, if it is still open; `k` is how
many there were before. -/
def level (edits : List Edit) (k : Nat) : Option Nat :=
  edits.foldlM (fun k edit => edit.shift k) k

/-- The operations close the scopes that they open, and no other. -/
def Balanced (edits : List Edit) : Prop :=
  level edits 0 = some 0

/-- An operation with the property was carried out in a scope that is still open, and so many scopes
are open inside it. If the operation opened a scope, this is the one. -/
def Inside (P : Edit → Draft → Prop) (edits : List Edit) (k : Nat) : Prop :=
  ∃ before edit after, edits = before ++ edit :: after ∧ P edit (run before Draft.empty) ∧
    level after 0 = some k

/-- A scope has been opened and is still open, and so many scopes are open inside it. -/
def OpenAt (edits : List Edit) (k : Nat) : Prop :=
  Inside (fun edit _ => edit = openScope) edits k

/-- The operation on the draft binds this variable. -/
def Binds (edit : Edit) (d : Draft) (v : Variable) : Prop :=
  edit = bind v.name ∧ ∃ e, d.bind v.name = .ok (v.id, e)

/-- The variable has been bound in a scope that is still open, and so many scopes are open inside
it. -/
def BoundAt (edits : List Edit) (k : Nat) (v : Variable) : Prop :=
  Inside (fun edit d => edit.Binds d v) edits k

theorem run_concat (edits : List Edit) (edit : Edit) (d : Draft) :
    run (edits ++ [edit]) d = (edit.apply (run edits d)).2 :=
  run_append edits [edit] d

theorem level_concat_eq_some_iff :
    level (edits ++ [edit]) j = some k ↔ ∃ i, level edits j = some i ∧ edit.shift i = some k := by
  unfold level
  rw [List.foldlM_append, Option.bind_eq_bind, Option.bind_eq_some_iff]
  simp only [List.foldlM_cons, List.foldlM_nil, Option.bind_eq_bind, Option.pure_def,
    Option.bind_fun_some]

theorem not_inside_nil {P : Edit → Draft → Prop} : ¬Inside P [] k := by
  rintro ⟨before, edit, after, same, -⟩
  simp at same

/-- One more operation is in the innermost scope, and shifts the levels of the others. -/
theorem inside_concat_iff {P : Edit → Draft → Prop} : Inside P (edits ++ [edit]) k ↔
    k = 0 ∧ P edit (run edits Draft.empty) ∨ ∃ j, Inside P edits j ∧ edit.shift j = some k := by
  constructor
  · rintro ⟨before, edit', after, same, holds, at_k⟩
    rcases List.eq_nil_or_concat after with rfl | ⟨after, last, rfl⟩
    · obtain ⟨rfl, ⟨⟩⟩ := List.append_inj' same rfl
      exact Or.inl ⟨(Option.some.inj at_k).symm, holds⟩
    · rw [List.concat_eq_append] at same at_k
      rw [← List.cons_append, ← List.append_assoc] at same
      obtain ⟨rfl, ⟨⟩⟩ := List.append_inj' same rfl
      obtain ⟨j, at_j, shifted⟩ := level_concat_eq_some_iff.mp at_k
      exact Or.inr ⟨j, ⟨before, edit', after, rfl, holds, at_j⟩, shifted⟩
  · rintro (⟨rfl, holds⟩ | ⟨j, ⟨before, edit', after, rfl, holds, at_j⟩, shifted⟩)
    · exact ⟨edits, edit, [], rfl, holds, rfl⟩
    · refine ⟨before, edit', after ++ [edit], by simp, holds, ?_⟩
      exact level_concat_eq_some_iff.mpr ⟨j, at_j, shifted⟩

/-! ## One operation -/

/-- What an operation does to scopes and variables. -/
inductive Rescopes (d e : Draft) : Edit → Prop
  | opened (scopes : e.scopes = [] :: d.scopes) (vars : e.vars = d.vars) :
      Rescopes d e openScope
  | closed (scopes : e.scopes = d.scopes.tail) (vars : e.vars = d.vars) : Rescopes d e closeScope
  | bound {name x} (done : d.bind name = .ok (x, e)) : Rescopes d e (bind name)
  | left {edit : Edit} (level : ∀ k, edit.shift k = some k) (never : ∀ v, ¬edit.Binds d v)
      (scopes : e.scopes = d.scopes) (vars : e.vars = d.vars) : Rescopes d e edit

theorem not_binds (other : ∀ name, edit ≠ bind name) (v : Variable) : ¬edit.Binds d v :=
  fun binds => other _ binds.1

/-- An operation that finds or creates a state has no part in scopes and variables. -/
theorem rescopes_settle {result : Except Draft.Fault (StateId × Draft)}
    (level : ∀ k, edit.shift k = some k) (never : ∀ v, ¬edit.Binds d v)
    (same : ∀ x e, result = .ok (x, e) → e.scopes = d.scopes ∧ e.vars = d.vars) :
    Rescopes d (settle d result fun r => (.state (some r.1), r.2)).2 edit := by
  cases result with
  | error fault => exact .left level never rfl rfl
  | ok r => exact .left level never (same _ _ rfl).1 (same _ _ rfl).2

/-- **What an operation does** to scopes and variables, whether it fails or not. -/
theorem rescopes_apply (edit : Edit) (d : Draft) : Rescopes d (edit.apply d).2 edit := by
  cases edit with
  | openScope => exact .opened rfl rfl
  | closeScope =>
    have done : (closeScope.apply d).2 = d.withVariables d.scopes.tail d.vars := by
      obtain ⟨_, _, _, _, scopes, _⟩ := d
      cases scopes <;> rfl
    rw [done]
    exact .closed rfl rfl
  | bind name =>
    cases done : d.bind name with
    | ok r =>
      rw [apply_bind_of_ok done]
      exact .bound done
    | error fault =>
      have never : ∀ v, ¬(bind name).Binds d v := by
        rintro v ⟨⟨⟩, e, bound⟩
        cases done.symm.trans bound
      rw [apply_bind_of_error done]
      exact .left (fun _ => rfl) never rfl rfl
  | draw statements =>
    rw [draft_draw]
    have same : (Statement.extendAll statements d).draft =
        (Statement.extendAll statements d).draft.withVariables d.scopes d.vars :=
      congrArg Attempt.draft (Statement.extendAll_withVariables statements d)
    rw [same]
    exact .left (fun _ => rfl) (not_binds (by simp)) rfl rfl
  | addNamed name =>
    refine rescopes_settle (fun _ => rfl) (not_binds (by simp)) fun x e done => ?_
    obtain ⟨-, -, rfl⟩ := addNamed_eq_ok_iff.mp done
    exact ⟨rfl, rfl⟩
  | place name =>
    refine rescopes_settle (fun _ => rfl) (not_binds (by simp)) fun x e done => ?_
    obtain ⟨-, -, rfl⟩ := place_eq_ok_iff.mp done
    rw [reserve_eq]
    exact ⟨rfl, rfl⟩
  | reserve name =>
    simp only [apply]
    rw [reserve_eq]
    exact .left (fun _ => rfl) (not_binds (by simp)) rfl rfl
  | resolve name =>
    have same : ((resolve name).apply d).2 = d := by
      simp only [apply]
      cases d.resolve name <;> rfl
    rw [same]
    exact .left (fun _ => rfl) (not_binds (by simp)) rfl rfl
  | _ => exact .left (fun _ => rfl) (not_binds (by simp)) rfl rfl

namespace Rescopes

/-- The scopes outside a scope that stays open stay as they are. -/
theorem drop_eq (h : Rescopes d e edit) (opened : k < d.scopes.length)
    (shifted : edit.shift k = some j) :
    j < e.scopes.length ∧ e.scopes.drop (j + 1) = d.scopes.drop (k + 1) := by
  cases h with
  | opened scopes =>
    obtain rfl := Option.some.inj shifted
    rw [scopes]
    exact ⟨Nat.succ_lt_succ opened, rfl⟩
  | closed scopes =>
    cases k with
    | zero => cases shifted
    | succ k =>
      obtain rfl := Option.some.inj shifted
      rw [scopes, List.length_tail, List.drop_tail]
      exact ⟨by omega, rfl⟩
  | bound done =>
    obtain ⟨scope, outer, scopes, -, -, rfl⟩ := bind_eq_ok_iff.mp done
    obtain rfl := Option.some.inj shifted
    rw [scopes] at opened ⊢
    exact ⟨opened, rfl⟩
  | left level _ scopes =>
    obtain rfl := Option.some.inj ((level k).symm.trans shifted)
    rw [scopes]
    exact ⟨opened, rfl⟩

/-- **What is bound after an operation** is what it binds, and what was bound in scopes that are
still open. -/
theorem bindsAt_iff (h : Rescopes d e edit) : e.BindsAt k v ↔
    k = 0 ∧ edit.Binds d v ∨ ∃ j, d.BindsAt j v ∧ edit.shift j = some k := by
  cases h with
  | opened scopes =>
    have never : ¬openScope.Binds d v := nofun
    cases k <;> simp [BindsAt, scopes, never, shift]
  | closed scopes =>
    have never : ¬closeScope.Binds d v := nofun
    simp only [BindsAt, scopes, List.getElem?_tail, never, and_false, false_or,
      shift_closeScope_eq_some_iff, exists_eq_right]
  | @bound name x done =>
    have binds : (bind name).Binds d v ↔ v = ⟨x, name⟩ := by
      constructor
      · rintro ⟨⟨⟩, f, again⟩
        cases done.symm.trans again
        rfl
      · rintro rfl
        exact ⟨rfl, e, done⟩
    obtain ⟨scope, outer, scopes, -, -, rfl⟩ := bind_eq_ok_iff.mp done
    cases k <;> simp [BindsAt, scopes, binds, shift, withVariables, or_comm]
  | left level never scopes => simp [BindsAt, scopes, level, never]

/-- The scopes that are open after an operation are the one that it opens, and those that are still
open. -/
theorem lt_length_iff (h : Rescopes d e edit) : k < e.scopes.length ↔
    k = 0 ∧ edit = openScope ∨ ∃ j, j < d.scopes.length ∧ edit.shift j = some k := by
  cases h with
  | opened scopes => cases k <;> simp [scopes, shift]
  | closed scopes =>
    simp only [scopes, List.length_tail, reduceCtorEq, and_false, false_or,
      shift_closeScope_eq_some_iff, exists_eq_right]
    omega
  | bound done =>
    obtain ⟨scope, outer, scopes, -, -, rfl⟩ := bind_eq_ok_iff.mp done
    simp [scopes, shift, withVariables]
  | left level never scopes =>
    have never : edit ≠ openScope := by
      rintro rfl
      cases level 0
    simp [scopes, level, never]

theorem bindsOnce (h : Rescopes d e edit) (once : d.BindsOnce) : e.BindsOnce := by
  cases h with
  | opened scopes =>
    unfold BindsOnce
    rw [scopes, List.forall_mem_cons]
    exact ⟨List.nodup_nil, once⟩
  | closed scopes =>
    intro scope hs
    rw [scopes] at hs
    exact once scope (List.mem_of_mem_tail hs)
  | @bound name x done =>
    obtain ⟨scope, outer, scopes, fresh, -, rfl⟩ := bind_eq_ok_iff.mp done
    unfold BindsOnce at once
    rw [scopes, List.forall_mem_cons] at once
    refine List.forall_mem_cons.mpr ⟨?_, once.2⟩
    rw [List.map_append, List.map_singleton, ← List.concat_eq_append]
    exact once.1.concat fresh
  | left _ _ scopes =>
    unfold BindsOnce
    rwa [scopes]

end Rescopes

/-! ## Histories -/

/-- **The variables bound in open scopes** are those that the history has bound there. -/
theorem boundAt_iff : BoundAt edits k v ↔ (run edits Draft.empty).BindsAt k v := by
  induction edits using List.reverseRecOn generalizing k with
  | nil => simp [BoundAt, not_inside_nil, BindsAt, run, Draft.empty]
  | append_singleton edits edit ih =>
    rw [BoundAt, inside_concat_iff, run_concat, (rescopes_apply edit _).bindsAt_iff]
    simp only [← ih, BoundAt]

/-- **The open scopes** are those that the history has opened. -/
theorem openAt_iff : OpenAt edits k ↔ k < (run edits Draft.empty).scopes.length := by
  induction edits using List.reverseRecOn generalizing k with
  | nil => simp [OpenAt, not_inside_nil, run, Draft.empty]
  | append_singleton edits edit ih =>
    rw [OpenAt, inside_concat_iff, run_concat, (rescopes_apply edit _).lt_length_iff]
    simp only [← ih, OpenAt]

theorem bindsOnce_run (edits : List Edit) : (run edits Draft.empty).BindsOnce := by
  induction edits using List.reverseRecOn with
  | nil => exact nofun
  | append_singleton edits edit ih =>
    rw [run_concat]
    exact (rescopes_apply edit _).bindsOnce ih

/-- The scopes outside a scope that stays open stay as they are. -/
theorem drop_run (edits : List Edit) : ∀ {d : Draft} {k : Nat}, k < d.scopes.length →
    level edits k = some j → j < (run edits d).scopes.length ∧
      (run edits d).scopes.drop (j + 1) = d.scopes.drop (k + 1) := by
  induction edits with
  | nil =>
    intro d k opened at_j
    obtain rfl := Option.some.inj at_j
    exact ⟨opened, rfl⟩
  | cons edit rest ih =>
    intro d k opened at_j
    obtain ⟨i, shifted, at_j⟩ := Option.bind_eq_some_iff.mp at_j
    obtain ⟨opened, first⟩ := (rescopes_apply edit d).drop_eq opened shifted
    obtain ⟨opened, others⟩ := ih opened at_j
    exact ⟨opened, others.trans first⟩

/-- **Balanced operations in a scope of their own** leave the scopes as they were. -/
theorem Balanced.scopes_run (h : Balanced edits) (d : Draft) :
    (run (openScope :: (edits ++ [closeScope])) d).scopes = d.scopes := by
  have inside := (drop_run edits (d := d.openScope) (Nat.zero_lt_succ _) h).2
  show (run (edits ++ [closeScope]) d.openScope).scopes = _
  rw [run_concat]
  cases rescopes_apply closeScope (run edits d.openScope) with
  | closed scopes =>
    rw [scopes, ← List.drop_one]
    exact inside
  | left level => cases level 0

/-! ## Numbers -/

/-- The names that the operations bind, in their order. -/
def boundNames : List Edit → Draft → List String
  | [], _ => []
  | bind name :: rest, d =>
    match d.bind name with
    | .ok (_, e) => name :: boundNames rest e
    | .error _ => boundNames rest d
  | edit :: rest, d => boundNames rest (edit.apply d).2

/-- **The variables of a draft** are all that were ever bound, numbered in this order. -/
theorem vars_run (edits : List Edit) (d : Draft) : (run edits d).vars =
    d.vars ++ Variable.numbered d.vars.length (boundNames edits d) := by
  fun_induction boundNames edits d with
  | case1 d => exact (List.append_nil _).symm
  | case2 name rest d x e done ih =>
    show (run rest ((bind name).apply d).2).vars = _
    rw [apply_bind_of_ok done, ih, Variable.numbered_cons]
    obtain ⟨scope, outer, -, -, rfl, rfl⟩ := bind_eq_ok_iff.mp done
    simp [withVariables]
  | case3 name rest d fault done ih =>
    show (run rest ((bind name).apply d).2).vars = _
    rw [apply_bind_of_error done, ih]
  | case4 edit rest d other ih =>
    have kept : (edit.apply d).2.vars = d.vars := by
      cases rescopes_apply edit d with
      | opened _ vars => exact vars
      | closed _ vars => exact vars
      | bound => exact (other _ rfl).elim
      | left _ _ _ vars => exact vars
    show (run rest (edit.apply d).2).vars = _
    rw [ih, kept]

/-- **Scopes nest.** After every history of a draft, in which operations may come in any order and
fail, names stand for variables like this. A scope that is opened, worked in and closed, while the
operations within are balanced, leaves no trace: every name stands for what it stood for before. A
name stands for the variable that has been bound to it in the innermost of the open scopes where one
has, and for none exactly if none has. Binding a name fails exactly if no scope is open, or if the
innermost one binds it. A variable that is bound gets the number of all that were ever bound before,
and a process that is completed records all that were ever bound, numbered from zero in their
order. -/
theorem scopes_nest (edits : List Edit) :
    let d := run edits Draft.empty
    (∀ inner, Balanced inner →
      ∀ n, (run (openScope :: (inner ++ [closeScope])) d).resolve n = d.resolve n) ∧
    (∀ n v, d.resolve n = .ok v ↔
      v.name = n ∧ ∃ k, BoundAt edits k v ∧ ∀ j < k, ∀ w, BoundAt edits j w → w.name ≠ n) ∧
    (∀ n fault, d.resolve n = .error fault ↔
      fault = .unresolvedVariable n ∧ ∀ k v, BoundAt edits k v → v.name ≠ n) ∧
    (∀ n fault, d.bind n = .error fault ↔
      fault = .noOpenScope ∧ (∀ k, ¬OpenAt edits k) ∨
        fault = .duplicateVariable n ∧ ∃ v, BoundAt edits 0 v ∧ v.name = n) ∧
    (∀ n x e, d.bind n = .ok (x, e) → x = (boundNames edits Draft.empty).length) ∧
    ∀ leniency name p, d.finish leniency name = .ok p →
      p.vars = Variable.numbered 0 (boundNames edits Draft.empty) := by
  intro d
  have vars : d.vars = Variable.numbered 0 (boundNames edits Draft.empty) := vars_run edits _
  simp only [boundAt_iff, openAt_iff]
  refine ⟨fun inner balanced n => ?_, fun n v => (bindsOnce_run edits).resolve_eq_ok_iff,
    fun n fault => resolve_eq_error_iff, fun n fault => ?_, fun n x e bound => ?_,
    fun leniency name p finished => ?_⟩
  · unfold Draft.resolve
    rw [balanced.scopes_run]
  · rw [bind_eq_error_iff]
    refine or_congr_left (and_congr_right fun _ => ?_)
    rw [← List.length_eq_zero_iff]
    exact ⟨fun closed k => Nat.not_lt.mpr (closed ▸ Nat.zero_le k),
      fun closed => Nat.le_zero.mp (Nat.not_lt.mp (closed 0))⟩
  · obtain ⟨-, -, -, -, rfl, -⟩ := bind_eq_ok_iff.mp bound
    rw [vars, Variable.numbered, List.length_map, List.length_zipIdx]
  · obtain ⟨rfl, -⟩ := Declaration.finish_eq_ok finished
    exact vars

/-- A name is bound again in an inner scope, and once more there, which fails. -/
def shadowing : List Edit :=
  [openScope, bind "x", bind "y", openScope, bind "x", bind "x"]

theorem scopes_nest_shadowing : ∃ d, run shadowing Draft.empty = d ∧
    d.resolve "x" = .ok ⟨2, "x"⟩ ∧ d.bind "x" = .error (.duplicateVariable "x") ∧
    (run [openScope, bind "x", bind "x", openScope, bind "y", closeScope, addUnnamed, closeScope]
      d).resolve "x" = .ok ⟨2, "x"⟩ ∧
    (∃ e, d.bind "z" = .ok (3, e)) ∧
    ∃ p, d.finish ⟨false, true⟩ none = .ok p ∧ p.vars = [⟨0, "x"⟩, ⟨1, "y"⟩, ⟨2, "x"⟩] := by
  obtain ⟨left, resolved, -, failed, numbered, recorded⟩ := scopes_nest shadowing
  have inner : BoundAt shadowing 0 ⟨2, "x"⟩ :=
    ⟨[openScope, bind "x", bind "y", openScope], bind "x", [bind "x"], rfl, ⟨rfl, _, rfl⟩, rfl⟩
  have stands := (resolved "x" ⟨2, "x"⟩).mpr ⟨rfl, 0, inner, nofun⟩
  obtain ⟨x, e, bound⟩ : ∃ x e, (run shadowing Draft.empty).bind "z" = .ok (x, e) := ⟨_, _, rfl⟩
  obtain ⟨p, finished⟩ : ∃ p, (run shadowing Draft.empty).finish ⟨false, true⟩ none = .ok p :=
    ⟨_, rfl⟩
  refine ⟨_, rfl, stands, (failed _ _).mpr (Or.inr ⟨rfl, _, inner, rfl⟩), ?_, ⟨e, ?_⟩, p, finished,
    recorded _ _ _ finished⟩
  · exact (left [bind "x", bind "x", openScope, bind "y", closeScope, addUnnamed] rfl "x").trans
      stands
  · obtain rfl : x = 3 := numbered "z" x e bound
    exact bound

end Edit

end ProtocolGraph
