import ProtocolGraph.Failure

/-!
# Failures as nested errors

`CompileError` has no list of forms: `in_form` puts one form around an error, and `root` and `forms`
take the forms off again, one after the other. `Failure.Nested` is this shape, with its loops.

* `Nested.failure`, `Failure.nested`: a nested error is a cause and the list of the forms around it,
  and nothing else (`nested_failure`, `failure_nested`).
* **`root_nested`, `forms_nested`**: the loops end at the cause, and gather the forms from outside
  in. What a nested error says of itself follows: `kind_nested`, `message_nested`, `toJson_nested`.
-/

namespace ProtocolGraph.Failure

/-- An error, and the forms around it, each around the next. -/
inductive Nested where
  /-- An error inside no form. -/
  | cause (cause : Cause)
  /-- An error inside a form of this name (`InForm`). -/
  | inForm (form : String) (source : Nested)
deriving DecidableEq

namespace Nested

/-- The innermost error, with all forms around it removed (`root`). -/
def root : Nested → Nested
  | .cause own => .cause own
  | .inForm _ source => source.root

/-- The loop of `forms`, which has gathered `outer` so far. -/
def formsFrom (outer : List String) : Nested → List String
  | .cause _ => outer
  | .inForm form source => source.formsFrom (outer ++ [form])

/-- The names of the forms around the error, outermost first (`forms`). -/
def forms (e : Nested) : List String :=
  e.formsFrom []

/-- The stage of the work at which the error arises (`kind`). -/
def kind : Nested → String
  | .cause own => own.stage
  | .inForm _ source => source.kind

/-- The text of the error. -/
def message : Nested → String
  | .cause own => own.message
  | .inForm form source => s!"in {form}: {source.message}"

/-- The JSON form of the error (`to_json_value`). -/
def toJson (e : Nested) : Json :=
  .object [("forms", .array (e.forms.map .string)), ("kind", .string e.kind),
    ("message", .string e.root.message)]

/-- The error as a cause and its forms. -/
def failure : Nested → Failure
  | .cause own => .of own
  | .inForm form source => source.failure.within form

end Nested

/-- The failure as an error inside its forms. -/
def nested (f : Failure) : Nested :=
  f.forms.foldr .inForm (.cause f.cause)

theorem nested_of (cause : Cause) : (of cause).nested = .cause cause := rfl

theorem nested_within (form : String) (f : Failure) :
    (f.within form).nested = .inForm form f.nested := rfl

/-- Failures are built from a cause by putting forms around it. -/
theorem within_induction {motive : Failure → Prop} (of : ∀ cause, motive (of cause))
    (within : ∀ form f, motive f → motive (f.within form)) (f : Failure) : motive f := by
  obtain ⟨forms, cause⟩ := f
  induction forms with
  | nil => exact of cause
  | cons form forms ih => exact within form ⟨forms, cause⟩ ih

/-- **A nested error is its cause and its forms.** -/
theorem nested_failure (e : Nested) : e.failure.nested = e := by
  induction e with
  | cause own => rfl
  | inForm form source ih => rw [Nested.failure, nested_within, ih]

theorem failure_nested (f : Failure) : f.nested.failure = f := by
  induction f using within_induction with
  | of cause => rfl
  | within form f ih => rw [nested_within, Nested.failure, ih]

/-- **The innermost error is the cause**, which no form is around. -/
theorem root_nested (f : Failure) : f.nested.root = .cause f.cause := by
  induction f using within_induction with
  | of cause => rfl
  | within form f ih => exact ih

theorem formsFrom_nested (outer : List String) (f : Failure) :
    f.nested.formsFrom outer = outer ++ f.forms := by
  induction f using within_induction generalizing outer with
  | of cause => exact (List.append_nil outer).symm
  | within form f ih =>
    rw [nested_within, Nested.formsFrom, ih, List.append_assoc]
    rfl

/-- **The forms are gathered from outside in.** -/
theorem forms_nested (f : Failure) : f.nested.forms = f.forms :=
  formsFrom_nested [] f

theorem kind_nested (f : Failure) : f.nested.kind = f.cause.stage := by
  induction f using within_induction with
  | of cause => rfl
  | within form f ih => exact ih

theorem message_nested (f : Failure) : f.nested.message = f.message := by
  induction f using within_induction with
  | of cause => rfl
  | within form f ih => rw [nested_within, Nested.message, ih, message_within]

theorem toJson_nested (f : Failure) : f.nested.toJson = f.toJson := by
  rw [Nested.toJson, forms_nested, kind_nested, root_nested]
  rfl

end ProtocolGraph.Failure
