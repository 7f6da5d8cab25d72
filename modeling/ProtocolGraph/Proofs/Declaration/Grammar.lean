import ProtocolGraph.Proofs.Declaration.Message
import ProtocolGraph.Proofs.Declaration.Respelt
import ProtocolGraph.Proofs.Process.WellFormed
import ProtocolGraph.Proofs.Statement.Accepted

/-!
# The grammar of declarations

Which forms declare a message or a process, in the terms of nodes and of the body alone, and what
they declare.

* `Node.NamesProcess`, `Node.BindsVariables`: the name and the variables in front of a body. A
  keyword `:name` or `:vars` that stands there introduces them, and is no label of the body.
  `Node.SpellsProcess` adds the body, in the terms of what its nodes spell.
* `Declaration.bindAll_eq_ok_iff`: variables are bound when they are symbols that differ, and are
  numbered in their order.
* **`Declaration.ofElements_eq_ok_iff`**: the elements of a list declare what they spell
  (`Declaration.Spells`), and nothing else. `Declaration.exists_body` says what a declared process
  is, and `Declaration.Declares` that it is declared with this body.
* **`Model.ofNodes_exact`**: nodes have a model exactly if each list among them spells a
  declaration, and the model holds these in their order.
-/

namespace ProtocolGraph

/-! ## The grammar -/

/-- Variables of these names, numbered from `start` on. -/
def Variable.numbered (start : VariableId) (names : List String) : List Variable :=
  (names.zipIdx start).map fun (name, id) => ⟨id, name⟩

theorem Variable.map_name_numbered (start : VariableId) (names : List String) :
    (numbered start names).map name = names := by
  rw [numbered, List.map_map]
  exact List.zipIdx_map_fst start names

theorem Variable.numbered_cons (start : VariableId) (name : String) (names : List String) :
    numbered start (name :: names) = ⟨start, name⟩ :: numbered (start + 1) names := rfl

namespace Node

/-- The nodes start with the name of a process, which `:name` may introduce, or name none; then come
the others. -/
inductive NamesProcess : List Node → Option String → List Node → Prop
  | introduced (name rest) :
      NamesProcess (.keyword ":name" :: .symbol name :: rest) (some name) rest
  | leading (name rest) : NamesProcess (.symbol name :: rest) (some name) rest
  | unnamed {rest} (nameless : ∀ name others, rest ≠ .symbol name :: others)
      (unintroduced : ∀ others, rest ≠ .keyword ":name" :: others) : NamesProcess rest none rest

/-- The nodes start with the variables of a process, which `:vars` introduces and which all differ,
or there are none; then comes the body. -/
inductive BindsVariables : List Node → List String → List Node → Prop
  | vars {names} (distinct : names.Nodup) (body) :
      BindsVariables (.keyword ":vars" :: .list (names.map .symbol) :: body) names body
  | none {body} (unintroduced : ∀ others, body ≠ .keyword ":vars" :: others) :
      BindsVariables body [] body

/-- The elements of a list spell a process with this name, if it has one, with variables of these
names, and with this body. -/
inductive SpellsProcess : List Node → Option String → List String → List Statement → Prop
  | intro {arguments name rest vars ns body} (named : NamesProcess arguments name rest)
      (bound : BindsVariables rest vars ns) (spelt : List.Forall₂ Spells ns body) :
      SpellsProcess (.symbol "defprocess" :: arguments) name vars body

theorem NamesProcess.unique {ns rest rest' : List Node} {name name' : Option String}
    (h : NamesProcess ns name rest) (h' : NamesProcess ns name' rest') :
    name = name' ∧ rest = rest' := by
  cases h with
  | introduced =>
    cases h' with
    | introduced => exact ⟨rfl, rfl⟩
    | unnamed _ unintroduced => exact (unintroduced _ rfl).elim
  | leading =>
    cases h' with
    | leading => exact ⟨rfl, rfl⟩
    | unnamed nameless => exact (nameless _ _ rfl).elim
  | unnamed nameless unintroduced =>
    cases h' with
    | introduced => exact (unintroduced _ rfl).elim
    | leading => exact (nameless _ _ rfl).elim
    | unnamed => exact ⟨rfl, rfl⟩

theorem BindsVariables.unique {rest body body' : List Node} {names names' : List String}
    (h : BindsVariables rest names body) (h' : BindsVariables rest names' body') :
    names = names' ∧ body = body' := by
  cases h with
  | vars =>
    generalize same : Node.keyword ":vars" :: _ :: body = rest at h'
    cases h' with
    | vars =>
      simp only [List.cons.injEq, Node.list.injEq, true_and] at same
      exact ⟨List.map_injective_iff.mpr (fun _ _ => Node.symbol.inj) same.1, same.2⟩
    | none unintroduced => exact (unintroduced _ same.symm).elim
  | none unintroduced =>
    cases h' with
    | vars => exact (unintroduced _ rfl).elim
    | none => exact ⟨rfl, rfl⟩

theorem SpellsProcess.exists_arguments {elements : List Node} {name : Option String}
    {vars : List String} {body : List Statement} (h : SpellsProcess elements name vars body) :
    ∃ arguments, elements = .symbol "defprocess" :: arguments := by
  cases h with
  | intro => exact ⟨_, rfl⟩

/-- Where a list comes first, there is neither a name nor a variable in front of the body. -/
theorem SpellsProcess.of_list {elements rest : List Node} {name : Option String}
    {vars : List String} {body : List Statement}
    (h : SpellsProcess (.symbol "defprocess" :: .list elements :: rest) name vars body) :
    name = none ∧ vars = [] ∧ (Node.list elements :: rest).map Statement.ofNode = body := by
  cases h with
  | intro named bound spelt =>
    cases named
    cases bound
    exact ⟨rfl, rfl, (forall₂_spells_iff.mp spelt).1⟩

/-- **Elements spell one process at most.** -/
theorem SpellsProcess.unique {elements : List Node} {name name' : Option String}
    {vars vars' : List String} {body body' : List Statement}
    (h : SpellsProcess elements name vars body) (h' : SpellsProcess elements name' vars' body') :
    name = name' ∧ vars = vars' ∧ body = body' := by
  obtain ⟨named, bound, spelt⟩ := h
  obtain ⟨named', bound', spelt'⟩ := h'
  obtain ⟨rfl, rfl⟩ := named.unique named'
  obtain ⟨rfl, rfl⟩ := bound.unique bound'
  exact ⟨rfl, rfl, unique_of_spells spelt spelt'⟩

end Node

/-- A name is bound if it is not bound yet, and gets the next number. -/
theorem Draft.Bound.bind_eq_ok_iff {d e : Draft} {n : String} {x : VariableId} (h : d.Bound) :
    d.bind n = .ok (x, e) ↔ n ∉ d.vars.map Variable.name ∧ x = d.vars.length ∧
      e = d.withVariables [d.vars ++ [⟨d.vars.length, n⟩]] (d.vars ++ [⟨d.vars.length, n⟩]) := by
  rw [Draft.bind_eq_ok_iff, h.scopes]
  constructor
  · rintro ⟨scope, outer, scopes, fresh, rfl, rfl⟩
    obtain ⟨rfl, rfl⟩ := List.cons.inj scopes
    exact ⟨fresh, rfl, rfl⟩
  · rintro ⟨fresh, rfl, rfl⟩
    exact ⟨_, _, rfl, fresh, rfl, rfl⟩

namespace Declaration

open Outcome Node

/-- The elements of a list spell the declaration: of a message with the name and the fields that
they name, or of a process with the name and the variables that they name and the graph that its
body draws. -/
inductive Spells (leniency : Leniency) : List Node → Declaration → Prop
  | message {ns rest m} (named : Names ":name" ns m.name) (fields : NamesFields rest m.fields) :
      Spells leniency (.symbol "defmessage" :: (ns ++ rest)) (.message m)
  | process {arguments name rest vars body d p} (named : NamesProcess arguments name rest)
      (bound : BindsVariables rest vars body)
      (drawn : Statement.extendAll (body.map Statement.ofNode) Draft.empty = .done d)
      (finished : d.finish leniency name = .ok p) :
      Spells leniency (.symbol "defprocess" :: arguments)
        (.process ⟨name, Variable.numbered 0 vars, p.initial, p.states, p.transitions⟩)

variable {l : Leniency} {f g : Form} {d e : Draft} {p : Process} {ns body elements : List Node}
  {name : Option String} {declaration : Declaration}

/-! ## Names -/

theorem readName_introduced (form : String) (n : Node) (rest : List Node) :
    readName ⟨form, .keyword ":name" :: n :: rest⟩ =
      reading n.expectSymbol >>= fun name => .ok (some name, ⟨form, rest⟩) := rfl

/-- **The name of a process is read** off the nodes that start with it. -/
theorem readName_eq_ok_iff :
    readName f = .ok (name, g) ↔ g.name = f.name ∧ NamesProcess f.arguments name g.arguments := by
  obtain ⟨form, arguments⟩ := f
  obtain ⟨form', rest⟩ := g
  constructor
  · intro h
    by_cases introduced : ∃ others, arguments = .keyword ":name" :: others
    · obtain ⟨_ | ⟨n, others⟩, rfl⟩ := introduced
      · cases h
      · rw [readName_introduced] at h
        obtain ⟨symbol, spelt, heq⟩ := bind_eq_ok_iff.mp h
        obtain rfl := Statement.expectSymbol_eq_ok_iff.mp (reading_eq_ok_iff.mp spelt)
        cases heq
        exact ⟨rfl, .introduced _ _⟩
    · by_cases leading : ∃ symbol others, arguments = .symbol symbol :: others
      · obtain ⟨symbol, others, rfl⟩ := leading
        cases h
        exact ⟨rfl, .leading _ _⟩
      · simp only [not_exists] at introduced leading
        cases (readName_of_nameless leading introduced form).symm.trans h
        exact ⟨rfl, .unnamed leading introduced⟩
  · rintro ⟨rfl, named⟩
    cases named with
    | introduced | leading => rfl
    | unnamed nameless unintroduced => exact readName_of_nameless nameless unintroduced _

/-! ## Variables -/

/-- **Variables are bound** when they are symbols that differ from each other and from those that
are bound already. -/
theorem bindAll_eq_ok_iff (h : d.Bound) : bindAll ns d = .ok e ↔
    ∃ names : List String, ns = names.map .symbol ∧ (d.vars.map Variable.name ++ names).Nodup ∧
      e = d.withVariables [d.vars ++ Variable.numbered d.vars.length names]
        (d.vars ++ Variable.numbered d.vars.length names) := by
  induction ns generalizing d with
  | nil =>
    have unchanged : d = d.withVariables [d.vars ++ Variable.numbered d.vars.length []]
        (d.vars ++ Variable.numbered d.vars.length []) := by
      rw [Variable.numbered, List.zipIdx_nil, List.map_nil, List.append_nil, ← h.scopes]
      rfl
    constructor
    · rintro ⟨⟩
      exact ⟨[], rfl, (List.append_nil _).symm ▸ h.names, unchanged⟩
    · rintro ⟨names, heq, -, rfl⟩
      obtain rfl := List.map_eq_nil_iff.mp heq.symm
      exact congrArg Except.ok unchanged
  | cons n ns ih =>
    simp only [bindAll, bind_eq_ok_iff, reading_eq_ok_iff, Statement.expectSymbol_eq_ok_iff]
    -- what is bound after the first variable, and then after the others
    have later : ∀ (name : String) (names : List String) (d' : Draft),
        d' = d.withVariables [d.vars ++ [⟨d.vars.length, name⟩]]
          (d.vars ++ [⟨d.vars.length, name⟩]) →
        d'.vars.map Variable.name ++ names = d.vars.map Variable.name ++ name :: names ∧
        d'.vars ++ Variable.numbered d'.vars.length names =
          d.vars ++ Variable.numbered d.vars.length (name :: names) := by
      rintro name names d' rfl
      simp [Draft.withVariables, Variable.numbered_cons]
    constructor
    · rintro ⟨name, rfl, ⟨x, d'⟩, bound, rest⟩
      have bound := mapError_eq_ok_iff.mp bound
      obtain ⟨names, rfl, distinct, rfl⟩ := (ih (h.bind bound)).mp rest
      obtain ⟨-, -, heq⟩ := h.bind_eq_ok_iff.mp bound
      obtain ⟨all, vars⟩ := later name names d' heq
      rw [all] at distinct
      rw [vars]
      exact ⟨name :: names, rfl, distinct, heq ▸ rfl⟩
    · rintro ⟨_ | ⟨name, names⟩, heq, distinct, rfl⟩
      · cases heq
      obtain ⟨rfl, rfl⟩ := List.cons.inj heq
      have fresh : name ∉ d.vars.map Variable.name := fun taken =>
        (List.nodup_append.mp distinct).2.2 name taken name List.mem_cons_self rfl
      have bound := h.bind_eq_ok_iff.mpr ⟨fresh, rfl, rfl⟩
      obtain ⟨all, vars⟩ := later name names _ rfl
      refine ⟨name, rfl, (_, _), mapError_eq_ok_iff.mpr bound, (ih (h.bind bound)).mpr ?_⟩
      rw [← all] at distinct
      rw [← vars]
      exact ⟨names, rfl, distinct, rfl⟩

/-- **The variables of a process are read** off the nodes that start with them. -/
theorem readVariables_eq_ok_iff : readVariables f = .ok (d, body) ↔
    ∃ names, BindsVariables f.arguments names body ∧ d = Draft.empty.withVariables
      [Variable.numbered 0 names] (Variable.numbered 0 names) := by
  obtain ⟨form, arguments⟩ := f
  by_cases introduced : ∃ others, arguments = .keyword ":vars" :: others
  · obtain ⟨_ | ⟨n, others⟩, rfl⟩ := introduced
    · constructor
      · rintro ⟨⟩
      · rintro ⟨names, bound, -⟩
        cases bound with
        | none unintroduced => exact (unintroduced [] rfl).elim
    · rw [readVariables_vars]
      simp only [map_eq_ok_iff, bind_eq_ok_iff, within_eq_ok_iff, reading_eq_ok_iff,
        expectList_eq_ok_iff]
      constructor
      · rintro ⟨e, ⟨ns, rfl, bound⟩, heq⟩
        cases heq
        obtain ⟨names, rfl, distinct, rfl⟩ :=
          (bindAll_eq_ok_iff Draft.bound_openScope_empty).mp bound
        exact ⟨names, .vars distinct _, rfl⟩
      · rintro ⟨names, bound, rfl⟩
        cases bound with
        | vars distinct =>
          refine ⟨_, ⟨_, rfl, (bindAll_eq_ok_iff Draft.bound_openScope_empty).mpr ?_⟩, rfl⟩
          exact ⟨names, rfl, distinct, rfl⟩
        | none unintroduced => exact (unintroduced _ rfl).elim
  · simp only [not_exists] at introduced
    rw [readVariables_of_other introduced]
    constructor
    · rintro ⟨⟩
      exact ⟨[], .none introduced, rfl⟩
    · rintro ⟨names, bound, rfl⟩
      cases bound with
      | vars => exact (introduced _ rfl).elim
      | none => rfl

/-! ## Processes -/

theorem finish_withVariables (scopes : List (List Variable)) (vars : List Variable) :
    (d.withVariables scopes vars).finish l name =
      (d.finish l name).map fun p => { p with vars } := by
  have same : (d.withVariables scopes vars).unplaced = d.unplaced := rfl
  unfold Draft.finish
  rw [same]
  split
  · rfl
  · cases d.unplaced <;> rfl

/-- Behind its name and its variables, a process is what its body draws into the empty draft. -/
theorem readProcess_of_binds {arguments rest : List Node} {vars : List String}
    (named : NamesProcess arguments name rest) (bound : BindsVariables rest vars body)
    (form : String) : readProcess l ⟨form, arguments⟩ =
      (Statement.extendAll (body.map Statement.ofNode) Draft.empty).result >>= fun d =>
        drawing ((d.finish l name).map fun p => { p with vars := Variable.numbered 0 vars }) := by
  have hname : readName ⟨form, arguments⟩ = .ok (name, ⟨form, rest⟩) :=
    readName_eq_ok_iff.mpr ⟨rfl, named⟩
  have hbody : readVariables ⟨form, rest⟩ = .ok (Draft.empty.withVariables
      [Variable.numbered 0 vars] (Variable.numbered 0 vars), body) :=
    readVariables_eq_ok_iff.mpr ⟨vars, bound, rfl⟩
  rw [readProcess_eq_bind, hname]
  show readGraph l name ⟨form, rest⟩ = _
  rw [readGraph, hbody]
  show (Statement.extendAll _ _).result >>= _ = _
  rw [Statement.extendAll_withVariables, Attempt.result_map]
  cases (Statement.extendAll (body.map Statement.ofNode) Draft.empty).result with
  | error fault => rfl
  | ok d => exact congrArg drawing (finish_withVariables _ _)

/-- **A process is read** off the arguments that name it and its variables, if its body can be drawn
and completed. -/
theorem readProcess_eq_ok_iff : readProcess l f = .ok p ↔
    ∃ name rest vars body d q, NamesProcess f.arguments name rest ∧ BindsVariables rest vars body ∧
      Statement.extendAll (body.map Statement.ofNode) Draft.empty = .done d ∧
      d.finish l name = .ok q ∧
      p = ⟨name, Variable.numbered 0 vars, q.initial, q.states, q.transitions⟩ := by
  obtain ⟨form, arguments⟩ := f
  constructor
  · intro h
    obtain ⟨⟨name, g⟩, hname, later⟩ := bind_eq_ok_iff.mp h
    obtain ⟨⟨_, body⟩, hbody, -⟩ := bind_eq_ok_iff.mp later
    obtain ⟨-, named⟩ := readName_eq_ok_iff.mp hname
    obtain ⟨vars, bound, -⟩ := readVariables_eq_ok_iff.mp hbody
    rw [readProcess_of_binds named bound] at h
    obtain ⟨d, drawn, h⟩ := bind_eq_ok_iff.mp h
    obtain ⟨q, finished, rfl⟩ := map_eq_ok_iff.mp (mapError_eq_ok_iff.mp h)
    obtain ⟨rfl, -⟩ := finish_eq_ok finished
    exact ⟨name, _, vars, body, d, _, named, bound, Attempt.result_eq_ok_iff.mp drawn, finished,
      rfl⟩
  · rintro ⟨name, rest, vars, body, d, q, named, bound, drawn, finished, rfl⟩
    rw [readProcess_of_binds named bound, Attempt.result_eq_ok_iff.mpr drawn]
    refine mapError_eq_ok_iff.mpr (map_eq_ok_iff.mpr ⟨q, finished, ?_⟩)
    obtain ⟨rfl, -⟩ := finish_eq_ok finished
    rfl

/-! ## Either -/

/-- **What the elements of a list declare** is what they spell. -/
theorem ofElements_eq_ok_iff : ofElements l elements = .ok declaration ↔
    Spells l elements declaration := by
  cases declaration with
  | message m =>
    rw [ofElements_eq_message_iff]
    constructor
    · rintro ⟨ns, rest, rfl, named, fields⟩
      exact .message named fields
    · intro spelt
      cases spelt with
      | message named fields => exact ⟨_, _, rfl, named, fields⟩
  | process p =>
    simp only [ofElements_eq_process_iff, readProcess_eq_ok_iff]
    constructor
    · rintro ⟨arguments, rfl, name, rest, vars, body, d, q, named, bound, drawn, finished, rfl⟩
      exact .process named bound drawn finished
    · intro spelt
      cases spelt with
      | process named bound drawn finished =>
        exact ⟨_, rfl, _, _, _, _, _, _, named, bound, drawn, finished, rfl⟩

/-- **What a declared process is.** The elements that declare it spell its name, its variables and
its body, and it has the graph of this body, with no label left unplaced unless that is
tolerated. -/
theorem exists_body (h : ofElements l elements = .ok (.process p)) :
    ∃ body d, SpellsProcess elements p.name (p.vars.map Variable.name) body ∧
      Statement.extendAll body Draft.empty = .done d ∧ p.HasGraph d ∧
      (l.unplacedLabels = true ∨ d.unplaced = []) := by
  cases ofElements_eq_ok_iff.mp h with
  | process named bound drawn finished =>
    obtain ⟨rfl, placed⟩ := finish_eq_ok finished
    refine ⟨_, _, ?_, drawn, ⟨rfl, rfl, rfl⟩, placed⟩
    rw [Variable.map_name_numbered]
    exact .intro named bound (Statement.spells_of_extendAll drawn)

/-- One of the nodes declares the process, with this body. -/
def Declares (leniency : Leniency) (nodes : List Node) (p : Process) (body : List Statement) :
    Prop :=
  ∃ elements, .list elements ∈ nodes ∧ ofElements leniency elements = .ok (.process p) ∧
    SpellsProcess elements p.name (p.vars.map Variable.name) body

end Declaration

namespace Model

open Declaration

/-- **Each process of a model** is declared by one of the nodes and has the graph of its body. -/
theorem exists_graph {leniency : Leniency} {nodes : List Node} {m : Model} {p : Process}
    (h : ofNodes leniency nodes = .ok m) (hp : p ∈ m.processes) :
    ∃ body d, Declares leniency nodes p body ∧ Statement.extendAll body Draft.empty = .done d ∧
      p.HasGraph d ∧ (leniency.unplacedLabels = true ∨ d.unplaced = []) := by
  obtain ⟨elements, hn, hread⟩ := exists_elements h hp
  obtain ⟨body, d, spelt, drawn, graph, placed⟩ := exists_body hread
  exact ⟨body, d, ⟨elements, hn, hread, spelt⟩, drawn, graph, placed⟩

/-- **Which nodes have a model**, and which model it is. There is one exactly if each list among
them spells a declaration: a message with its name and its fields, or a process with its name, if it
has one, with variables that all differ, and with a body that can be drawn and completed. Other
nodes make no difference. The model holds the messages and the processes that the lists spell, in
their order. -/
theorem ofNodes_exact (leniency : Leniency) (nodes : List Node) :
    ((∃ m, ofNodes leniency nodes = .ok m) ↔
      ∀ elements, .list elements ∈ nodes → ∃ declaration, Spells leniency elements declaration) ∧
    ∀ m, ofNodes leniency nodes = .ok m ↔ ∃ declarations,
      List.Forall₂ (Spells leniency) (nodes.filterMap Node.elements?) declarations ∧
      m.messages = declarations.filterMap Declaration.message? ∧
      m.processes = declarations.filterMap Declaration.process? := by
  simp only [ofNodes, Outcome.map_eq_ok_iff]
  constructor
  · simp only [← Node.mem_filterMap_elements?_iff, ← ofElements_eq_ok_iff]
    rw [← Outcome.exists_mapM_iff, exists_comm]
    simp only [exists_and_left, exists_eq', and_true]
  · rintro ⟨messages, processes⟩
    simp only [Outcome.mapM_eq_ok_iff, ofElements_eq_ok_iff, ofDeclarations, Model.mk.injEq]
    simp only [eq_comm (b := messages), eq_comm (b := processes)]

end Model

end ProtocolGraph
