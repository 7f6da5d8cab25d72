import ProtocolGraph.Node.Basic

/-!
# Forms

A form is a list that starts with a symbol: the symbol names it and the other elements are its
arguments. They are read from left to right, by position or with an introducing keyword that may be
left out, so a `Form` holds just the arguments that are still unread. It is a `CallForm` without
what has been read; the one with a position is `Call`.

* A reading operation answers what it read together with the form that is left. One that fails
  answers no form: nothing has been read.
* `named` reads an argument that a keyword may introduce, `positional` the next one whatever it is,
  and `finish` fails if any is left.
* `named_eq_ok_iff` and `positional_eq_ok_iff` say that what is handed out stood in front.

`Node.expectSymbol` and its kin take the content out of a node of a certain kind.
-/

namespace ProtocolGraph

/-- A named operation and its unread arguments. -/
structure Form where
  /-- The name. -/
  name : String
  /-- The unread arguments. -/
  arguments : List Node

/-- Why a form cannot be read (`ArgumentError`). -/
inductive Form.Fault where
  /-- A list without elements is no form. -/
  | emptyList
  /-- An argument that a keyword may introduce is not there. -/
  | missingParameter
  /-- No argument is left. -/
  | endOfArguments
  /-- A keyword introduces another argument than the one expected. -/
  | wrongKeyword (expected found : String)
  /-- Nothing follows the keyword. -/
  | missingValue (keyword : String)
  /-- A node has another kind than the one expected. -/
  | wrongKind (expected found : Node.Kind)
  /-- This many arguments are left over. -/
  | trailing (count : Nat)
  /-- The keyword has a value already. -/
  | duplicateKeyword (keyword : String)
deriving DecidableEq

/-- The text of the fault. -/
def Form.Fault.message : Form.Fault → String
  | .emptyList => "empty list"
  | .missingParameter => "missing required parameter(s)"
  | .endOfArguments => "end of arguments"
  | .wrongKeyword expected found => s!"wrong arg name, got {found} but expected {expected}"
  | .missingValue keyword => s!"missing value for arg {keyword}"
  | .wrongKind expected found => s!"expected {expected.name}, got {found.name}"
  | .trailing count => s!"{count} unexpected trailing argument(s)"
  | .duplicateKeyword keyword => s!"duplicate keyword {keyword}"

/-! ## The content of a node -/

namespace Node

/-- The text of a string, with its quotes. -/
def expectString : Node → Except Form.Fault String
  | .string text => .ok text
  | n => .error (.wrongKind .string n.kind)

/-- The name of a symbol. -/
def expectSymbol : Node → Except Form.Fault String
  | .symbol name => .ok name
  | n => .error (.wrongKind .symbol n.kind)

/-- The name of a keyword, with its colon. -/
def expectKeyword : Node → Except Form.Fault String
  | .keyword name => .ok name
  | n => .error (.wrongKind .keyword n.kind)

/-- The elements of a list. -/
def expectList : Node → Except Form.Fault (List Node)
  | .list elements => .ok elements
  | n => .error (.wrongKind .list n.kind)

end Node

/-! ## Reading arguments -/

namespace Form

/-- The form that a list of nodes spells (`read_call`). -/
def ofNodes : List Node → Except Fault Form
  | [] => .error .emptyList
  | head :: arguments => head.expectSymbol.map (⟨·, arguments⟩)

/-- The next argument, which `keyword` may introduce (`next_named_param`). -/
def named (keyword : String) (f : Form) : Except Fault (Node × Form) :=
  match f.arguments with
  | [] => .error .missingParameter
  | .keyword found :: rest =>
    if found ≠ keyword then .error (.wrongKeyword keyword found)
    else
      match rest with
      | [] => .error (.missingValue keyword)
      | value :: rest => .ok (value, { f with arguments := rest })
  | value :: rest => .ok (value, { f with arguments := rest })

/-- The next argument (`next_positional_param`). -/
def positional (f : Form) : Except Fault (Node × Form) :=
  match f.arguments with
  | [] => .error .endOfArguments
  | value :: rest => .ok (value, { f with arguments := rest })

/-- The next argument, if one is left (`next_optional_param`). -/
def optional (f : Form) : Option Node × Form :=
  (f.arguments.head?, { f with arguments := f.arguments.tail })

/-- Reads `keyword` itself, if it is the next argument (`take_keyword`). -/
def skipKeyword (keyword : String) (f : Form) : Bool × Form :=
  match f.arguments with
  | .keyword found :: rest =>
    if found = keyword then (true, { f with arguments := rest }) else (false, f)
  | _ => (false, f)

/-- All the arguments that are left (`remaining`). -/
def remaining (f : Form) : List Node × Form :=
  (f.arguments, { f with arguments := [] })

/-- No argument is left. -/
def isExhausted (f : Form) : Bool :=
  f.arguments.isEmpty

/-- Fails if an argument is left. -/
def finish (f : Form) : Except Fault Unit :=
  match f.arguments.length with
  | 0 => .ok ()
  | count => .error (.trailing count)

/-! ## Lemmas -/

/-- What `positional` hands out is the first argument, and it leaves the others. -/
theorem positional_eq_ok_iff {f g : Form} {n : Node} :
    f.positional = .ok (n, g) ↔ f = ⟨g.name, n :: g.arguments⟩ := by
  obtain ⟨name, arguments⟩ := f
  cases arguments with
  | nil => simp [positional]
  | cons m rest =>
    simp only [positional, Except.ok.injEq, Prod.mk.injEq, Form.mk.injEq, List.cons.injEq]
    constructor
    · rintro ⟨rfl, rfl⟩
      exact ⟨rfl, rfl, rfl⟩
    · rintro ⟨rfl, rfl, rfl⟩
      exact ⟨rfl, rfl⟩

/-- What `named` hands out is the argument behind the keyword, or the first one if that is no
keyword. -/
theorem named_eq_ok_iff {keyword : String} {f g : Form} {n : Node} :
    f.named keyword = .ok (n, g) ↔
      f = ⟨g.name, .keyword keyword :: n :: g.arguments⟩ ∨
        f = ⟨g.name, n :: g.arguments⟩ ∧ n.kind ≠ .keyword := by
  obtain ⟨name, arguments⟩ := f
  obtain ⟨name', arguments'⟩ := g
  rcases arguments with _ | ⟨head, rest⟩
  · simp [named]
  · cases head with
    | keyword found =>
      rcases rest with _ | ⟨value, rest⟩ <;> by_cases h : found = keyword <;>
        grind [named, Node.kind]
    | list _ | string _ | int _ | symbol _ => grind [named, Node.kind]

theorem finish_eq_ok_iff {f : Form} : f.finish = .ok () ↔ f.arguments = [] := by
  unfold finish
  rcases f.arguments with _ | ⟨n, rest⟩ <;> simp

end Form

end ProtocolGraph
