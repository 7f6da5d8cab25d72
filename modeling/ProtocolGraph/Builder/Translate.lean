import ProtocolGraph.Builder.Basic
import ProtocolGraph.Form.Call
import ProtocolGraph.Proofs.Outcome
import ProtocolGraph.Statement.Graph

/-!
# Translating nodes

`Building.translate` draws the statement that a node spells, from the end of the path that a builder
holds (`translate_body_form`). The builder is changed on the way, and nothing is undone where the
translation fails: a `Building` has its outcome and the builder that is left in either case.

* Each form is translated in the order in which the program does it: its arguments are read from the
  call, one after the other, and then the graph is changed. `name_current_state`, `send`, `receive`
  and `goto` are `nameCurrentState`, `send`, `receive` and `jump`.
* `if_then_else` comes in two parts. `readBranch` reads the arguments, and `drawBranch` draws,
  between the translations of the alternatives. These are among the arguments
  (`mem_of_readBranch`), on which the recursion rests.
-/

namespace ProtocolGraph

/-- Work on a builder, which may fail. -/
abbrev Building (α : Type) : Type :=
  ExceptT Failure (StateM Builder) α

namespace Builder

/-- A new state, entered from `source` over this label, where the path then ends. -/
def enter (source : StateId) (label : Label) (b : Builder) : Builder :=
  let (target, b) := b.allocUnnamedState
  (b.addTransition ⟨source, target, label⟩).setCurrent (some target)

/-- A transition from `source`, if there is one. -/
def addTransitionFrom (source : Option StateId) (target : StateId) (label : Label) (b : Builder) :
    Builder :=
  match source with
  | some source => b.addTransition ⟨source, target, label⟩
  | none => b

/-- A new state where the alternatives of a branch meet. -/
def join (thenEnd elseEnd : Option StateId) (b : Builder) : Builder :=
  let (ifEnd, b) := b.allocUnnamedState
  ((b.addTransitionFrom thenEnd ifEnd (.leaving "ifend")).addTransitionFrom elseEnd ifEnd
    (.leaving "elseend")).setCurrent (some ifEnd)

end Builder

namespace Building

open Builder Outcome
open Draft (startLabel)

/-- The outcome of the work, and the builder that it leaves. -/
def outcome {α : Type} (work : Building α) (b : Builder) : Except Failure α × Builder :=
  work.run.run b

/-- Fails for this cause. -/
def fail {α : Type} (cause : Cause) : Building α :=
  throw (.of cause)

/-- Something that is known, or why it is not. -/
def known {α : Type} (result : Except Cause α) : Building α :=
  match result with
  | .ok a => pure a
  | .error cause => fail cause

/-- An operation on the builder. -/
def operation {α : Type} (op : Builder → Except Draft.Fault α × Builder) : Building α :=
  ExceptT.mk fun b => ((op b).1.mapError fun fault => .of (.graph fault), (op b).2)

/-- The same work, seen from outside a form of this name. -/
def inForm {α : Type} (form : String) (work : Building α) : Building α :=
  ExceptT.mk fun b => ((work.outcome b).1.mapError (Failure.within form), (work.outcome b).2)

/-! ## Labels -/

/-- Names the place that control has reached. The start label changes nothing where the path is
still at the initial state. -/
def nameCurrentState (name : String) : Building Unit := do
  let b ← get
  if name = startLabel ∧ b.current = some b.initial then pure ()
  else
    let state ← operation (declareLabel name)
    modify fun b => (b.addTransitionFrom b.current state {}).setCurrent (some state)

/-! ## Messages and jumps -/

/-- The content of an argument that was looked up. -/
def content {α : Type} (found : Except Form.Fault Node) (expect : Node → Except Form.Fault α) :
    Except Cause α :=
  (found >>= expect).mapError .argument

/-- Reading an argument leaves the arguments, and goes forward, past an argument if one is left. -/
theorem positional_forward (c : Call) : c.positional.2.arguments = c.arguments ∧
    c.position ≤ c.positional.2.position ∧
    (c.position < c.arguments.length → c.position < c.positional.2.position) := by
  unfold Call.positional
  cases next : c.peek with
  | none =>
    refine ⟨rfl, Nat.le_refl _, fun left => ?_⟩
    exact absurd (List.getElem?_eq_none_iff.mp next) (Nat.not_le_of_lt left)
  | some n => exact ⟨rfl, Nat.le_succ _, fun _ => Nat.lt_succ_self _⟩

/-- Reads pairs of a keyword and a value into a valuation, each keyword once, up to the last
argument. -/
def readPairs (valuation : Valuation) (call : Call) : Except Cause Valuation :=
  if call.isExhausted then .ok valuation
  else do
    let key ← content call.positional.1 Node.expectKeyword
    let behind := call.positional.2
    let value ← behind.positional.1.mapError fun _ => .argument (.missingValue key)
    if (valuation.find? key).isSome then throw (.argument (.duplicateKeyword key))
    let value ← (Expression.ofNode value).mapError .expression
    readPairs (valuation.insert key value) behind.positional.2
termination_by call.arguments.length - call.position
decreasing_by
  have left : call.position < call.arguments.length := by
    simpa [Call.isExhausted] using ‹¬call.isExhausted = true›
  obtain ⟨same, -, first⟩ := positional_forward call
  obtain ⟨same', second, -⟩ := positional_forward call.positional.2
  have first := first left
  rw [same', same]
  omega

/-- Draws the sending of a message, with the values of its fields. -/
def send (call : Call) (source : StateId) : Building Unit := do
  let message ← known (content (call.named ":message").1 Node.expectSymbol)
  let valuation ← known (readPairs ∅ (call.named ":message").2)
  modify (enter source (.sending message valuation))

/-- Draws the reception of a message. -/
def receive (call : Call) (source : StateId) : Building Unit := do
  let message ← known (content (call.named ":message").1 Node.expectSymbol)
  known ((call.named ":message").2.finish.mapError .argument)
  modify (enter source (.receiving message))

/-- Draws a jump. -/
def jump (call : Call) (source : StateId) : Building Unit := do
  let label ← known (content call.positional.1 Node.expectKeyword)
  known (call.positional.2.finish.mapError .argument)
  let target ← operation (jumpTarget label)
  modify fun b => (b.addTransition ⟨source, target, {}⟩).setCurrent none

/-! ## Branches -/

/-- The guard of a branch, its consequent, and its alternative if it has one. -/
def readBranch (call : Call) : Except Cause (Expression × Node × Option Node) := do
  let guard ← call.positional.1.mapError .argument
  let guard ← (Expression.ofNode guard).mapError .expression
  let call := call.positional.2
  let consequent ← call.positional.1.mapError .argument
  let call := call.positional.2
  call.optional.2.finish.mapError .argument
  return (guard, consequent, call.optional.1)

/-- Draws a branch around the translations of its alternatives. -/
def drawBranch (source : StateId) (guard : Expression) (consequent : Building Unit)
    (alternative : Option (Building Unit)) : Building Unit := do
  modify (enter source (.entering guard))
  consequent
  let thenEnd := (← get).current
  modify (setCurrent (some source))
  let elseEnd ← match alternative with
    | some alternative => do
      modify (enter source (.passing guard))
      alternative
      pure (← get).current
    | none => pure none
  if thenEnd = none ∧ elseEnd = none then modify (setCurrent none)
  else modify (join thenEnd elseEnd)

theorem mem_of_positional {c : Call} {n : Node} (h : c.positional.1 = .ok n) :
    n ∈ c.arguments := by
  unfold Call.positional at h
  cases next : c.peek with
  | none =>
    rw [next] at h
    cases h
  | some m =>
    rw [next] at h
    cases h
    exact List.mem_of_getElem? next

/-- The alternatives of a branch are among the arguments. -/
theorem mem_of_readBranch {c : Call} {guard : Expression} {consequent : Node}
    {alternative : Option Node} (h : readBranch c = .ok (guard, consequent, alternative)) :
    consequent ∈ c.arguments ∧ ∀ n ∈ alternative, n ∈ c.arguments := by
  have same := (positional_forward c).1
  have same' := (positional_forward c.positional.2).1
  simp only [readBranch, bind_eq_ok_iff, mapError_eq_ok_iff] at h
  obtain ⟨_, -, _, -, n, second, -, -, heq⟩ := h
  cases heq
  have among := mem_of_positional second
  refine ⟨same ▸ among, fun n hn => ?_⟩
  cases third : c.positional.2.positional.2.positional.1 with
  | error fault =>
    rw [Call.optional, third] at hn
    cases hn
  | ok m =>
    rw [Call.optional, third] at hn
    cases hn
    have among := mem_of_positional third
    rwa [same', same] at among

/-- Translates a branch, given how its arguments are translated. -/
def branch (call : Call) (source : StateId)
    (translate : ∀ n ∈ call.arguments, Building Unit) : Building Unit :=
  match h : readBranch call with
  | .error cause => fail cause
  | .ok (guard, consequent, alternative) =>
    drawBranch source guard (translate consequent (mem_of_readBranch h).1)
      (alternative.pmap translate (mem_of_readBranch h).2)

/-! ## Dispatch -/

/-- Work from the end of the path, in a form of this name. -/
def fromCurrent (form : String) (work : StateId → Building Unit) : Building Unit := do
  match (← get).current with
  | none => fail (.graph (.unreachable form))
  | some source => inForm form (work source)

/-- Translates a form, given how its arguments are translated. -/
def translateCall (call : Call) (translate : ∀ n ∈ call.arguments, Building Unit) :
    Building Unit :=
  if call.name = "!send" then fromCurrent call.name (send call)
  else if call.name = "?receive" then fromCurrent call.name (receive call)
  else if call.name = "goto" then fromCurrent call.name (jump call)
  else if call.name = "if" then fromCurrent call.name (branch call · translate)
  else if call.name = "let" ∨ call.name = "select" then
    fail (.placement (.unsupportedStatement call.name))
  else fail (.placement (.unknownStatement call.name))

theorem sizeOf_lt_of_ofNodes {children : List Node} {c : Call} {n : Node}
    (h : Call.ofNodes children = .ok c) (hn : n ∈ c.arguments) :
    sizeOf n < sizeOf (Node.list children) := by
  have among : n ∈ children := by
    cases children with
    | nil => cases h
    | cons head arguments =>
      obtain ⟨_, -, rfl⟩ := map_eq_ok_iff.mp h
      exact List.mem_cons_of_mem _ hn
  have smaller := List.sizeOf_lt_of_mem among
  rw [Node.list.sizeOf_spec]
  omega

/-- Draws the statement that a node spells, from the end of the path. -/
def translate : Node → Building Unit
  | .keyword name => nameCurrentState name
  | .list children =>
    match _spelt : Call.ofNodes children with
    | .error fault => fail (.argument fault)
    | .ok call => translateCall call fun n _among => translate n
  | n => fail (.placement (.notStatement n.kind))
termination_by n => sizeOf n
decreasing_by exact sizeOf_lt_of_ofNodes _spelt _among

/-- Draws the statements that nodes spell one after the other, up to the first that fails. -/
def translateAll : List Node → Building Unit
  | [] => pure ()
  | n :: rest => do
    translate n
    translateAll rest

end Building

end ProtocolGraph
