import ProtocolGraph.Failure

/-!
# Attempts

Translating a statement (`translate_body_form`) may fail half way, and nothing is undone then: an
`Attempt` is the draft as it is left, and the failure if there was one. What comes after a failed
attempt does not happen (`andThen`).
-/

namespace ProtocolGraph

/-- A draft that was worked on, and what went wrong. -/
structure Attempt where
  /-- The draft as it is left. -/
  draft : Draft
  /-- What went wrong. -/
  failure : Option Failure := none
deriving DecidableEq

namespace Attempt

/-- The work is done, and left this draft. -/
def done (d : Draft) : Attempt where
  draft := d

/-- The work failed for this cause, and left this draft. -/
def failed (cause : Cause) (d : Draft) : Attempt where
  draft := d
  failure := some (.of cause)

/-- More work on the draft, unless the attempt failed. -/
def andThen (a : Attempt) (next : Draft → Attempt) : Attempt :=
  match a.failure with
  | none => next a.draft
  | some _ => a

/-- The same attempt, seen from outside a form of this name (`in_form`). -/
def within (form : String) (a : Attempt) : Attempt :=
  { a with failure := a.failure.map (Failure.within form) }

/-- The outcome of the attempt by itself. -/
def result (a : Attempt) : Except Failure Draft :=
  match a.failure with
  | none => .ok a.draft
  | some f => .error f

/-! ## Lemmas -/

@[simp] theorem done_andThen (d : Draft) (next : Draft → Attempt) :
    (done d).andThen next = next d := rfl

@[simp] theorem failed_andThen (cause : Cause) (d : Draft) (next : Draft → Attempt) :
    (failed cause d).andThen next = failed cause d := rfl

theorem andThen_assoc (a : Attempt) (f g : Draft → Attempt) :
    (a.andThen f).andThen g = a.andThen fun d => (f d).andThen g := by
  obtain ⟨d, failure⟩ := a
  cases failure <;> rfl

@[simp] theorem draft_within (form : String) (a : Attempt) : (a.within form).draft = a.draft := rfl

@[simp] theorem failure_within_eq_none_iff {form : String} {a : Attempt} :
    (a.within form).failure = none ↔ a.failure = none := by
  simp [within]

end Attempt

end ProtocolGraph
