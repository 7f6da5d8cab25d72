import Mathlib.Data.List.Forall2
import ProtocolGraph.Model.Source
import ProtocolGraph.Proofs.Outcome
import ProtocolGraph.Proofs.Statement.Respelt

/-!
# Introducing keywords in declarations

The name of a message, of a field and of a process, and the first field of a message, may be
introduced by a keyword. What is declared does not depend on it, nor on such keywords in the body of
a process, and neither does the failure of a form that declares nothing.

* `Declaration.RespeltField`, `Declaration.RespeltMessage`, `Declaration.RespeltProcess`: keywords
  have been put in.
* `Declaration.readMessage_respelt`, `Declaration.readProcess_respelt`: the arguments are read as
  the same declaration.
* **`Model.ofNodes_respelt`**: nodes declare the same model, or fail in the same way.
-/

namespace ProtocolGraph

open Form

namespace Declaration

/-! ## Messages -/

/-- In a `field` form `:name` has been put in front of its first argument, or not. -/
inductive RespeltField : Node → Node → Prop
  | kept (n) : RespeltField n n
  | field {arguments arguments'} (introduced : Introduced ":name" arguments arguments') :
      RespeltField (.list (.symbol "field" :: arguments)) (.list (.symbol "field" :: arguments'))

/-- In the arguments behind the name of a message keywords have been put: `:name` into fields, and
`:fields` in front of the first one. -/
def RespeltFields (arguments arguments' : List Node) : Prop :=
  ∃ fields, List.Forall₂ RespeltField arguments fields ∧ Introduced ":fields" fields arguments'

/-- In the arguments of a message keywords have been put: `:name` in front of its name and into
fields, and `:fields` in front of what follows the name. -/
inductive RespeltMessage : List Node → List Node → Prop
  | fields {arguments arguments'} (each : List.Forall₂ RespeltField arguments arguments') :
      RespeltMessage arguments arguments'
  | bare {name name' rest rest' named} (plain : name.kind ≠ .keyword)
      (field : RespeltField name name') (fields : RespeltFields rest rest')
      (introduced : Introduced ":name" (name' :: rest') named) :
      RespeltMessage (name :: rest) named
  | introduced {name name' rest rest'} (field : RespeltField name name')
      (fields : RespeltFields rest rest') :
      RespeltMessage (.keyword ":name" :: name :: rest) (.keyword ":name" :: name' :: rest')

variable {n n' : Node} {arguments arguments' : List Node}

theorem RespeltField.kind_eq (h : RespeltField n n') : n'.kind = n.kind := by
  cases h <;> rfl

theorem RespeltField.expectSymbol_eq (h : RespeltField n n') :
    n'.expectSymbol = n.expectSymbol := by
  cases h <;> rfl

theorem RespeltField.readField_eq (h : RespeltField n n') : readField n' = readField n := by
  cases h with
  | kept => rfl
  | @field arguments arguments' introduced =>
    have spelt : ∀ arguments : List Node, readField (.list (.symbol "field" :: arguments)) =
        within "field" (reading ((⟨"field", arguments⟩ : Form).named ":name") >>= fun r =>
          reading r.1.expectSymbol >>= fun name => reading r.2.finish >>= fun _ =>
            .ok name) := fun _ => rfl
    rw [spelt, spelt, introduced.named]

theorem RespeltField.mapM_readField (h : List.Forall₂ RespeltField arguments arguments') :
    arguments'.mapM readField = arguments.mapM readField := by
  induction h with
  | nil => rfl
  | cons head _ ih => rw [List.mapM_cons, List.mapM_cons, head.readField_eq, ih]

/-- Two answers to looking up an argument: the same failure, or arguments that are respelt with
rests that are related. -/
inductive FoundAlike (related : List Node → List Node → Prop) :
    Except Form.Fault (Node × Form) → Except Form.Fault (Node × Form) → Prop
  | fault (e) : FoundAlike related (.error e) (.error e)
  | found {n n' form rest rest'} (head : RespeltField n n') (tail : related rest rest') :
      FoundAlike related (.ok (n, ⟨form, rest⟩)) (.ok (n', ⟨form, rest'⟩))

namespace FoundAlike

variable {related related' : List Node → List Node → Prop}
  {r r' : Except Form.Fault (Node × Form)}

theorem mono (h : FoundAlike related r r')
    (each : ∀ {rest rest'}, related rest rest' → related' rest rest') :
    FoundAlike related' r r' := by
  cases h with
  | fault e => exact .fault e
  | found head tail => exact .found head (each tail)

/-- What goes on alike from arguments that are found alike has one outcome. -/
theorem bind_eq {α : Type} {next : Node × Form → Except Failure α} (h : FoundAlike related r r')
    (wrap : Except Form.Fault (Node × Form) → Except Failure (Node × Form))
    (succeeds : ∀ x, wrap (.ok x) = .ok x)
    (each : ∀ {n n' form rest rest'}, RespeltField n n' → related rest rest' →
      next (n', ⟨form, rest'⟩) = next (n, ⟨form, rest⟩)) : wrap r' >>= next = wrap r >>= next := by
  cases h with
  | fault e => rfl
  | found head tail =>
    rw [succeeds, succeeds]
    exact each head tail

end FoundAlike

/-- An argument is found alike where keywords have been put into fields. -/
theorem RespeltField.named (h : List.Forall₂ RespeltField arguments arguments')
    (keyword form : String) : FoundAlike (List.Forall₂ RespeltField)
      ((⟨form, arguments⟩ : Form).named keyword) ((⟨form, arguments'⟩ : Form).named keyword) := by
  cases h with
  | nil => exact .fault _
  | @cons n _ _ _ head tail =>
    cases head with
    | field introduced => exact .found (.field introduced) tail
    | kept =>
      cases n with
      | keyword found =>
        unfold Form.named
        by_cases other : found ≠ keyword
        · simp only [if_pos other]
          exact .fault _
        · simp only [if_neg other]
          cases tail with
          | nil => exact .fault _
          | cons value tail => exact .found value tail
      | list | string | int | symbol => exact .found (.kept _) tail

theorem readFields_respelt (h : RespeltFields arguments arguments') (form : String) :
    readFields ⟨form, arguments'⟩ = readFields ⟨form, arguments⟩ := by
  have spelt : ∀ (n : Node) (rest : List Node), readFields ⟨form, n :: rest⟩ =
      within "field" (reading ((⟨form, n :: rest⟩ : Form).named ":fields")) >>= fun r =>
        readField r.1 >>= fun first => r.2.arguments.mapM readField >>= fun others =>
          .ok (first :: others) := fun _ _ => rfl
  obtain ⟨fields, each, introduced⟩ := h
  have put : readFields ⟨form, arguments'⟩ = readFields ⟨form, fields⟩ := by
    cases introduced with
    | kept => rfl
    | put plain rest => rw [spelt, spelt, (Introduced.put plain rest).named]
  rw [put]
  have found := RespeltField.named each ":fields" form
  cases each with
  | nil => rfl
  | cons =>
    rw [spelt, spelt]
    refine found.bind_eq (fun r => within "field" (reading r)) (fun _ => rfl) ?_
    intro n n' form rest rest' head tail
    simp only [head.readField_eq, RespeltField.mapM_readField tail]

/-- The name of a message is found alike. -/
theorem RespeltMessage.named (h : RespeltMessage arguments arguments') (form : String) :
    FoundAlike RespeltFields ((⟨form, arguments⟩ : Form).named ":name")
      ((⟨form, arguments'⟩ : Form).named ":name") := by
  cases h with
  | fields each =>
    exact (RespeltField.named each ":name" form).mono fun tail => ⟨_, tail, .kept _⟩
  | @bare name name' rest rest' _ plain field fields introduced =>
    have bare : ∀ (n : Node) (rest : List Node), n.kind ≠ .keyword →
        (⟨form, n :: rest⟩ : Form).named ":name" = .ok (n, ⟨form, rest⟩) := fun n rest plain =>
      named_eq_ok_iff.mpr (Or.inr ⟨rfl, plain⟩)
    rw [introduced.named, bare _ _ plain, bare _ _ (field.kind_eq ▸ plain)]
    exact .found field fields
  | introduced field fields => exact .found field fields

/-- **The same message is declared** with and without the keywords. -/
theorem readMessage_respelt (h : RespeltMessage arguments arguments') (form : String) :
    readMessage ⟨form, arguments'⟩ = readMessage ⟨form, arguments⟩ := by
  have spelt : ∀ arguments : List Node, readMessage ⟨form, arguments⟩ =
      reading ((⟨form, arguments⟩ : Form).named ":name") >>= fun r =>
        reading r.1.expectSymbol >>= fun name => readFields r.2 >>= fun fields =>
          .ok ⟨name, fields⟩ := fun _ => rfl
  rw [spelt, spelt]
  refine (h.named form).bind_eq reading (fun _ => rfl) ?_
  intro n n' form rest rest' head tail
  simp only [head.expectSymbol_eq, readFields_respelt tail]

/-! ## Processes -/

/-- In the statements of a process keywords have been put, but not into its variables. -/
inductive RespeltBody : List Node → List Node → Prop
  | kept (body) : RespeltBody body body
  | statements {body body' : List Node} (other : ∀ rest, body ≠ .keyword ":vars" :: rest)
      (each : Node.RespeltAll body body') : RespeltBody body body'
  | vars {names body body'} (each : Node.RespeltAll body body') :
      RespeltBody (.keyword ":vars" :: names :: body) (.keyword ":vars" :: names :: body')

/-- In the arguments of a process keywords have been put: `:name` in front of a symbol that comes
first, and others into its statements. -/
inductive RespeltProcess : List Node → List Node → Prop
  | named {name rest rest' arguments'} (body : RespeltBody rest rest')
      (introduced : Introduced ":name" (.symbol name :: rest') arguments') :
      RespeltProcess (.symbol name :: rest) arguments'
  | introduced {name rest rest'} (body : RespeltBody rest rest') :
      RespeltProcess (.keyword ":name" :: name :: rest) (.keyword ":name" :: name :: rest')
  | unnamed {body body' : List Node} (nameless : ∀ name rest, body ≠ .symbol name :: rest)
      (other : ∀ rest, body ≠ .keyword ":name" :: rest) (statements : RespeltBody body body') :
      RespeltProcess body body'

variable {leniency : Leniency} {name : Option String} {form : String} {f : Form}
  {body body' : List Node}

/-- No leaf has been put in front of the statements. -/
theorem RespeltBody.head_kept (h : RespeltBody body body') {leaf : Node} (leafy : leaf.kind ≠ .list)
    {rest' : List Node} (head : body' = leaf :: rest') : ∃ rest, body = leaf :: rest := by
  cases h with
  | kept => exact ⟨rest', head⟩
  | vars each =>
    cases head
    exact ⟨_, rfl⟩
  | statements other each =>
    cases each with
    | nil => cases head
    | cons first others =>
      cases head
      cases first with
      | kept => exact ⟨_, rfl⟩
      | message | branches => exact absurd rfl leafy

/-- The process of this name, with the variables and the body that the rest of a form spells. -/
def readGraph (leniency : Leniency) (name : Option String) (f : Form) : Except Failure Process := do
  let (d, body) ← readVariables f
  let d ← (Statement.extendAll (body.map Statement.ofNode) d).result
  drawing (d.finish leniency name)

theorem readProcess_eq_bind (f : Form) :
    readProcess leniency f = readName f >>= fun r => readGraph leniency r.1 r.2 := rfl

/-- Of the body only the statements count. -/
theorem readGraph_of_readVariables {bound : Except Failure Draft}
    (h : readVariables f = bound.map (·, body)) : readGraph leniency name f =
      bound >>= fun d => (Statement.extendAll (body.map Statement.ofNode) d).result >>= fun d =>
        drawing (d.finish leniency name) := by
  rw [readGraph, h]
  cases bound <;> rfl

theorem readVariables_of_other (other : ∀ rest, body ≠ .keyword ":vars" :: rest) (form : String) :
    readVariables ⟨form, body⟩ = (Except.ok Draft.empty.openScope).map (·, body) := by
  have unread : (⟨form, body⟩ : Form).skipKeyword ":vars" = (false, ⟨form, body⟩) := by
    unfold Form.skipKeyword
    split
    · rename_i found rest heq
      refine if_neg fun hf => other rest ?_
      rw [← hf]
      exact heq
    · rfl
  unfold readVariables
  rw [unread]
  rfl

theorem readVariables_vars (form : String) (names : Node) (body : List Node) :
    readVariables ⟨form, .keyword ":vars" :: names :: body⟩ =
      (within ":vars" (reading names.expectList) >>= fun ns =>
        bindAll ns Draft.empty.openScope).map (·, body) := by
  have spelt : readVariables ⟨form, .keyword ":vars" :: names :: body⟩ =
      within ":vars" (reading names.expectList >>= fun ns => .ok (ns, (⟨form, body⟩ : Form))) >>=
        fun r => bindAll r.1 Draft.empty.openScope >>= fun d => .ok (d, r.2.arguments) := rfl
  rw [spelt]
  cases names.expectList with
  | error fault => rfl
  | ok ns =>
    show (bindAll ns _ >>= fun d => Except.ok (d, body)) = (bindAll ns _).map _
    cases bindAll ns Draft.empty.openScope <;> rfl

theorem RespeltBody.readGraph_eq (h : RespeltBody body body') :
    readGraph leniency name ⟨form, body'⟩ = readGraph leniency name ⟨form, body⟩ := by
  cases h with
  | kept => rfl
  | statements other each =>
    have other' : ∀ rest, body' ≠ .keyword ":vars" :: rest := fun rest head => by
      obtain ⟨rest, head⟩ := (RespeltBody.statements other each).head_kept (by decide) head
      exact other rest head
    rw [readGraph_of_readVariables (readVariables_of_other other form),
      readGraph_of_readVariables (readVariables_of_other other' form), each.map_ofNode]
  | vars each =>
    rw [readGraph_of_readVariables (readVariables_vars form _ _),
      readGraph_of_readVariables (readVariables_vars form _ _), each.map_ofNode]

theorem readName_of_nameless (nameless : ∀ name rest, body ≠ .symbol name :: rest)
    (other : ∀ rest, body ≠ .keyword ":name" :: rest) (form : String) :
    readName ⟨form, body⟩ = .ok (none, ⟨form, body⟩) := by
  unfold readName
  split
  · rename_i head
    obtain ⟨rest, head⟩ := List.head?_eq_some_iff.mp head
    exact absurd head (other rest)
  · rename_i name head
    obtain ⟨rest, head⟩ := List.head?_eq_some_iff.mp head
    exact absurd head (nameless name rest)
  · rfl

/-- **The same process is declared** with and without the keywords. -/
theorem readProcess_respelt (h : RespeltProcess arguments arguments') :
    readProcess leniency ⟨form, arguments'⟩ = readProcess leniency ⟨form, arguments⟩ := by
  rw [readProcess_eq_bind, readProcess_eq_bind]
  cases h with
  | @named symbol rest rest' _ body introduced =>
    cases introduced with
    | kept => exact body.readGraph_eq
    | put => exact body.readGraph_eq
  | @introduced n rest rest' body =>
    have spelt : ∀ rest : List Node, readName ⟨form, .keyword ":name" :: n :: rest⟩ =
        reading n.expectSymbol >>= fun name => .ok (some name, ⟨form, rest⟩) := fun _ => rfl
    rw [spelt, spelt]
    cases n.expectSymbol with
    | error fault => rfl
    | ok name => exact body.readGraph_eq
  | unnamed nameless other statements =>
    have nameless' : ∀ name rest, arguments' ≠ .symbol name :: rest := fun name rest head => by
      obtain ⟨rest, head⟩ := statements.head_kept (by simp [Node.kind]) head
      exact nameless name rest head
    have other' : ∀ rest, arguments' ≠ .keyword ":name" :: rest := fun rest head => by
      obtain ⟨rest, head⟩ := statements.head_kept (by simp [Node.kind]) head
      exact other rest head
    rw [readName_of_nameless nameless other, readName_of_nameless nameless' other']
    exact statements.readGraph_eq

/-! ## Either -/

/-- In a form at top level keywords have been put in front of what they introduce. -/
inductive Respelt : Node → Node → Prop
  | kept (node) : Respelt node node
  | message {arguments arguments' : List Node} (respelt : RespeltMessage arguments arguments') :
      Respelt (.list (.symbol "defmessage" :: arguments))
        (.list (.symbol "defmessage" :: arguments'))
  | process {arguments arguments' : List Node} (respelt : RespeltProcess arguments arguments') :
      Respelt (.list (.symbol "defprocess" :: arguments))
        (.list (.symbol "defprocess" :: arguments'))

/-- **The same is declared** with and without the keywords. -/
theorem Respelt.ofElements_eq (h : Respelt n n') :
    n'.elements?.map (ofElements leniency) = n.elements?.map (ofElements leniency) := by
  cases h with
  | kept => rfl
  | message respelt =>
    exact congrArg (fun r => some (within "defmessage" (r.map Declaration.message)))
      (readMessage_respelt respelt "defmessage")
  | process respelt =>
    exact congrArg (fun r => some (within "defprocess" (r.map Declaration.process)))
      (readProcess_respelt respelt)

end Declaration

/-- **Keywords that introduce arguments make no difference.** If in nodes at top level keywords are
put in front of the arguments that they introduce, at any places and in any number of them, then the
nodes declare the same model, or the first failure is the same and happens within the same forms. -/
theorem Model.ofNodes_respelt {nodes nodes' : List Node}
    (h : List.Forall₂ Declaration.Respelt nodes nodes') (leniency : Leniency) :
    ofNodes leniency nodes' = ofNodes leniency nodes := by
  have read : (nodes'.filterMap Node.elements?).map (Declaration.ofElements leniency) =
      (nodes.filterMap Node.elements?).map (Declaration.ofElements leniency) := by
    rw [List.map_filterMap, List.map_filterMap]
    induction h with
    | nil => rfl
    | cons head _ ih => rw [List.filterMap_cons, List.filterMap_cons, head.ofElements_eq, ih]
  have together : ∀ forms : List (List Node), forms.mapM (Declaration.ofElements leniency) =
      (forms.map (Declaration.ofElements leniency)).mapM id := fun forms => by
    rw [List.mapM_map]
    rfl
  rw [ofNodes, together, read, ← together, ofNodes]

/-- A message with two fields, and a process that sends this message in a branch of a branch. -/
def Model.bareNodes : List Node := [
  .list [.symbol "defmessage", .symbol "Pay", .list [.symbol "field", .symbol "sum"],
    .list [.symbol "field", .symbol "tip"]],
  .list [.symbol "defprocess", .symbol "shop", .list [.symbol "if", .symbol "open",
    .list [.symbol "if", .symbol "late", .list [.symbol "!send", .symbol "Pay", .keyword ":sum",
      .int 1]], .list [.symbol "?receive", .symbol "Pay"]]]]

/-- The same with every keyword that may be left out. -/
def Model.introducedNodes : List Node := [
  .list [.symbol "defmessage", .keyword ":name", .symbol "Pay", .keyword ":fields",
    .list [.symbol "field", .keyword ":name", .symbol "sum"],
    .list [.symbol "field", .keyword ":name", .symbol "tip"]],
  .list [.symbol "defprocess", .keyword ":name", .symbol "shop", .list [.symbol "if",
    .symbol "open", .list [.symbol "if", .symbol "late", .list [.symbol "!send",
      .keyword ":message", .symbol "Pay", .keyword ":sum", .int 1]],
    .list [.symbol "?receive", .keyword ":message", .symbol "Pay"]]]]

theorem Model.ofNodes_respelt_introducedNodes :
    List.Forall₂ Declaration.Respelt bareNodes introducedNodes ∧
      (ofNodes .strict bareNodes).toOption.isSome = true ∧
      ofNodes .strict introducedNodes = ofNodes .strict bareNodes := by
  have put : ∀ (keyword name : String) (rest : List Node), Form.Introduced keyword
      (.symbol name :: rest) (.keyword keyword :: .symbol name :: rest) := fun _ _ _ =>
    .put (by simp [Node.kind]) _
  have field : ∀ name : String, Declaration.RespeltField (.list [.symbol "field", .symbol name])
      (.list [.symbol "field", .keyword ":name", .symbol name]) := fun _ => .field (put _ _ _)
  have respelt : List.Forall₂ Declaration.Respelt bareNodes introducedNodes := by
    refine .cons (.message (.bare (by decide) (.kept _) ⟨_, ?_, .put (by decide) _⟩ (put _ _ _)))
      (.cons (.process (.named (.statements (by simp) (.cons ?_ .nil)) (put _ _ _))) .nil)
    · exact .cons (field "sum") (.cons (field "tip") .nil)
    · exact .branches (.cons (.branches (.cons (.message (.inl rfl) (put _ _ _)) .nil))
        (.cons (.message (.inr rfl) (put _ _ _)) .nil))
  exact ⟨respelt, by decide +kernel, ofNodes_respelt respelt .strict⟩

end ProtocolGraph
