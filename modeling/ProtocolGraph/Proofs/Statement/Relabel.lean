import Mathlib.Logic.Equiv.Basic
import ProtocolGraph.Proofs.Draft.Symmetry
import ProtocolGraph.Proofs.Statement.Accepted
import ProtocolGraph.Proofs.Statement.Respelt

/-!
# Other names for labels

What a label is called makes no difference. Another name for every label, and different names for
different labels, changes the names of states and nothing else.

* `Node.relabel`: the node of a process body with other names for the labels that it places and
  jumps to, at any depth of branches.
* `Statement.ofNode_relabel`: it is read as the statement with other names.
* `Draft.symmetry_relabel`: drawing does not notice other names, if they differ where the names
  differed and the start label keeps its own.
* **`Statement.drawn_relabel`**: so a body is drawn with other names exactly as it was, and can be
  completed exactly if it could.
-/

namespace ProtocolGraph

/-! ## Nodes -/

namespace Node

mutual

/-- The node with other names for labels: for the label that it places, for the one that it jumps
to, or for those in the branches of an `if`. -/
def relabel (r : String → String) : Node → Node
  | .keyword name => .keyword (r name)
  | .list (.symbol "goto" :: .keyword target :: rest) =>
    .list (.symbol "goto" :: .keyword (r target) :: rest)
  | .list (.symbol "if" :: guard :: branches) =>
    .list (.symbol "if" :: guard :: relabelAll r branches)
  | n => n

/-- Each of the nodes with other names for labels. -/
def relabelAll (r : String → String) : List Node → List Node
  | [] => []
  | n :: rest => n.relabel r :: relabelAll r rest

end

variable {r : String → String}

theorem relabelAll_eq_map (ns : List Node) : relabelAll r ns = ns.map (relabel r) := by
  induction ns with
  | nil => rfl
  | cons n rest ih => rw [relabelAll, ih, List.map_cons]

end Node

/-! ## Statements -/

namespace Statement

variable {r : String → String} {f : Form} {cause : Cause}

theorem relabel_of_readPairs {v : Valuation} {ns : List Node} (h : readPairs v ns = .error cause) :
    cause.relabel r = cause := by
  induction v, ns using readPairs.induct with
  | case1 v => cases h
  | case2 v key =>
    cases h
    rfl
  | case3 v key value rest again =>
    rw [readPairs, if_pos again] at h
    cases h
    rfl
  | case4 v key value rest new kind unread =>
    rw [readPairs, if_neg new, unread] at h
    cases h
    rfl
  | case5 v key value rest new e read ih =>
    rw [readPairs, if_neg new, read] at h
    exact ih h
  | case6 v n rest alone followed =>
    rw [readPairs] at h
    · cases h
      rfl
    · exact alone
    · exact followed

theorem relabel_of_readMessage (h : readMessage f = .error cause) : cause.relabel r = cause := by
  unfold readMessage at h
  split at h
  · cases h
    rfl
  · split at h
    · cases h
      rfl
    · cases h

theorem relabel_readSend (form : String) :
    (orMisread form (readSend f)).relabel r = orMisread form (readSend f) := by
  unfold readSend
  split
  · rename_i cause named
    exact congrArg (misread form) (relabel_of_readMessage named)
  · rename_i message g named
    cases pairs : readPairs ∅ g.arguments with
    | error cause => exact congrArg (misread form) (relabel_of_readPairs pairs)
    | ok v => rfl

theorem relabel_readReceive (form : String) :
    (orMisread form (readReceive f)).relabel r = orMisread form (readReceive f) := by
  unfold readReceive
  split
  · rename_i cause named
    exact congrArg (misread form) (relabel_of_readMessage named)
  · rename_i message g named
    cases g.finish <;> rfl

/-- A form other than a jump mentions no label. -/
theorem ofForm_relabel (h : f.name ≠ "goto") : (ofForm f).relabel r = ofForm f := by
  unfold ofForm
  split
  · exact relabel_readSend f.name
  · split
    · exact relabel_readReceive f.name
    · split <;> rfl

/-- A jump mentions its target. -/
theorem ofForm_relabel_goto (target : String) (rest : List Node) :
    (ofForm ⟨"goto", .keyword target :: rest⟩).relabel r =
      ofForm ⟨"goto", .keyword (r target) :: rest⟩ := by
  cases rest <;> rfl

theorem guarded_relabel (guard : Node) (statement : Expression → Statement) :
    (guarded guard statement).relabel r = guarded guard fun e => (statement e).relabel r := by
  unfold guarded
  split <;> rfl

/-- A branch mentions the labels of its alternatives. -/
theorem ofNode_relabel_branch {branches : List Node}
    (each : ∀ n ∈ branches, ofNode (n.relabel r) = (ofNode n).relabel r) (guard : Node) :
    ofNode (.list (.symbol "if" :: guard :: Node.relabelAll r branches)) =
      (ofNode (.list (.symbol "if" :: guard :: branches))).relabel r := by
  rcases branches with _ | ⟨consequent, _ | ⟨alternative, _ | ⟨extra, rest⟩⟩⟩
  · show _ = (guarded guard _).relabel r
    rw [guarded_relabel]
    rfl
  · rw [ofNode, guarded_relabel]
    show guarded guard (fun e => .branch e (ofNode (consequent.relabel r))) = _
    rw [each consequent (by simp)]
    rfl
  · rw [ofNode, guarded_relabel]
    show guarded guard (fun e => .branchElse e (ofNode (consequent.relabel r))
      (ofNode (alternative.relabel r))) = _
    rw [each consequent (by simp), each alternative (by simp)]
    rfl
  · rw [Node.ofNode_crowded, guarded_relabel]
    show ofNode (.list (.symbol "if" :: guard :: consequent.relabel r ::
      alternative.relabel r :: extra.relabel r :: Node.relabelAll r rest)) = _
    rw [Node.ofNode_crowded, Node.relabelAll_eq_map, List.length_map]
    rfl

/-- **A node with other names** is read as the statement with other names. -/
theorem ofNode_relabel (n : Node) : ofNode (n.relabel r) = (ofNode n).relabel r := by
  induction n using Node.induction with
  | list elements ih =>
    rcases elements with _ | ⟨head, arguments⟩
    · rfl
    · cases head with
      | symbol name =>
        by_cases branch : name = "if"
        · subst branch
          rcases arguments with _ | ⟨guard, branches⟩
          · rfl
          · exact ofNode_relabel_branch (fun n hn => ih n (by simp [hn])) guard
        · by_cases jump : name = "goto"
          · subst jump
            rcases arguments with _ | ⟨target, rest⟩
            · rfl
            · cases target with
              | keyword target => exact (ofForm_relabel_goto target rest).symm
              | _ => rfl
          · have unchanged : (Node.list (.symbol name :: arguments)).relabel r =
                .list (.symbol name :: arguments) := by
              rw [Node.relabel] <;> simp_all
            rw [unchanged, Node.ofNode_of_ne branch]
            exact (ofForm_relabel jump).symm
      | _ => rfl
  | _ => rfl

theorem map_ofNode_relabelAll (nodes : List Node) :
    (Node.relabelAll r nodes).map ofNode = (nodes.map ofNode).map (relabel r) := by
  rw [Node.relabelAll_eq_map, List.map_map, List.map_map]
  exact List.map_congr_left fun n _ => ofNode_relabel n

end Statement

/-! ## Drafts -/

/-- The state with another name, if it has one. -/
def State.relabel (r : String → String) (s : State) : State where
  id := s.id
  name := s.name.map r

namespace Draft

/-- The draft with other names of states. -/
def relabel (r : String → String) (d : Draft) : Draft :=
  { d with
    states := d.states.map (State.relabel r)
    placed := d.placed.map r }

variable {r : String → String} {d : Draft} {n : String}

theorem addState_relabel (name : Option String) :
    (d.relabel r).addState (name.map r) = (d.addState name).relabel r := by
  simp only [addState, relabel, nextState, List.length_map, List.map_append, List.map_cons,
    List.map_nil, State.relabel]

theorem nextState_relabel : (d.relabel r).nextState = d.nextState := by
  rw [nextState, relabel, List.length_map, nextState]

theorem stateNamed?_relabel (inj : Function.Injective r) :
    (d.relabel r).stateNamed? (r n) = d.stateNamed? n := by
  have named : ((fun s : State => s.name == some (r n)) ∘ State.relabel r) =
      fun s => s.name == some n := by
    funext s
    rw [Bool.eq_iff_iff, beq_iff_eq, ← (Option.map_injective inj).eq_iff (a := s.name)]
    exact beq_iff_eq
  show Option.map _ ((d.states.map (State.relabel r)).find? _) = _
  rw [List.find?_map, named, Option.map_map]
  rfl

theorem reserve_relabel (inj : Function.Injective r) :
    (d.relabel r).reserve (r n) = ((d.reserve n).1, (d.reserve n).2.relabel r) := by
  unfold reserve
  rw [stateNamed?_relabel inj]
  cases d.stateNamed? n with
  | some x => rfl
  | none =>
    exact Prod.ext nextState_relabel (addState_relabel (some n))

/-- **Drawing does not notice other names**, if they differ where the names differed and the start
label keeps its own. -/
theorem symmetry_relabel (inj : Function.Injective r) (start : r startLabel = startLabel) :
    Symmetry r (relabel r) where
  start n := by rw [← inj.eq_iff (a := n), start]
  current _ := rfl
  nextState _ := nextState_relabel
  addUnnamed d := addState_relabel none
  connect _ _ := rfl
  moveTo _ _ := rfl
  reserve n d := reserve_relabel inj
  placed n d := List.mem_map_of_injective inj
  addPlaced n d := by simp [relabel]

theorem relabel_empty (start : r startLabel = startLabel) :
    Draft.empty.relabel r = Draft.empty := by
  simp [relabel, empty, State.relabel, start]

theorem names_relabel : (d.relabel r).names = d.names.map r := by
  simp only [names, relabel, List.filterMap_map, List.map_filterMap]
  rfl

theorem exists_finish_relabel_iff (inj : Function.Injective r) {leniency : Leniency}
    {name : Option String} : (∃ p, (d.relabel r).finish leniency name = .ok p) ↔
      ∃ p, d.finish leniency name = .ok p := by
  rw [Statement.exists_finish_iff, Statement.exists_finish_iff, names_relabel, List.forall_mem_map]
  simp only [relabel, List.mem_map_of_injective inj]

end Draft

namespace Statement

open Draft

variable {r : String → String}

/-- **What labels are called makes no difference.** With other names for labels, which differ where
the names differed, and the start label as it is, the nodes of a body are drawn into the empty draft
exactly if they were. There are the same states, under their other names, and the same transitions,
and the path ends where it did. If something fails it is the same failure, up to the name that is
given twice. What is left can be completed exactly if it could, whatever is tolerated. -/
theorem drawn_relabel (inj : Function.Injective r) (start : r startLabel = startLabel)
    (nodes : List Node) :
    let drawn := extendAll (nodes.map ofNode) Draft.empty
    let drawn' := extendAll ((Node.relabelAll r nodes).map ofNode) Draft.empty
    (drawn'.failure = none ↔ drawn.failure = none) ∧
    drawn'.failure = drawn.failure.map (Failure.relabel r) ∧
    drawn'.draft.states = drawn.draft.states.map (State.relabel r) ∧
    drawn'.draft.transitions = drawn.draft.transitions ∧
    drawn'.draft.current = drawn.draft.current ∧
    ∀ leniency name, (∃ p, drawn'.draft.finish leniency name = .ok p) ↔
      ∃ p, drawn.draft.finish leniency name = .ok p := by
  intro drawn drawn'
  have alike : drawn' = drawn.relabel r (Draft.relabel r) := by
    rw [← (symmetry_relabel inj start).extendAll, ← map_ofNode_relabelAll, relabel_empty start]
  rw [alike]
  exact ⟨Option.map_eq_none_iff, rfl, rfl, rfl, rfl, fun _ _ => exists_finish_relabel_iff inj⟩

/-- Two labels exchange their names. One is placed in a branch whose alternative jumps to the other,
and then it is placed again. -/
theorem drawn_relabel_exchanged : ∃ r : String → String, Function.Injective r ∧
    r startLabel = startLabel ∧ ∃ nodes nodes',
    nodes = [.keyword ":start", .list [.symbol "if", .symbol "p", .keyword ":a",
      .list [.symbol "goto", .keyword ":b"]], .keyword ":a"] ∧
    nodes' = [.keyword ":start", .list [.symbol "if", .symbol "p", .keyword ":b",
      .list [.symbol "goto", .keyword ":a"]], .keyword ":b"] ∧
    (extendAll (nodes.map ofNode) Draft.empty).failure =
      some (.of (.graph (.duplicateState ":a"))) ∧
    (extendAll (nodes'.map ofNode) Draft.empty).failure =
      some (.of (.graph (.duplicateState ":b"))) ∧
    (extendAll (nodes'.map ofNode) Draft.empty).draft.states =
      [⟨1, some ":start"⟩, ⟨2, none⟩, ⟨3, some ":b"⟩, ⟨4, none⟩, ⟨5, some ":a"⟩, ⟨6, none⟩] ∧
    (extendAll (nodes'.map ofNode) Draft.empty).draft.transitions =
      (extendAll (nodes.map ofNode) Draft.empty).draft.transitions := by
  have inj : Function.Injective (Equiv.swap ":a" ":b") := Equiv.injective _
  obtain ⟨-, failure, states, transitions, -⟩ := drawn_relabel inj (by decide)
    [.keyword ":start", .list [.symbol "if", .symbol "p", .keyword ":a",
      .list [.symbol "goto", .keyword ":b"]], .keyword ":a"]
  exact ⟨_, inj, by decide, _, _, rfl, rfl, rfl, failure, states, transitions⟩

end Statement

end ProtocolGraph
