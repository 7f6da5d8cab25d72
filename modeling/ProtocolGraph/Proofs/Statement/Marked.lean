import ProtocolGraph.Proofs.Node.Rendering
import ProtocolGraph.Proofs.Process.Recording
import ProtocolGraph.Proofs.Valuation

/-!
# Names that start with a colon

A word is a keyword exactly if it starts with a colon, and a graph takes its names of states and of
fields from keywords only.

* `Statement.Marked`: every label, every target of a jump and every field of a statement starts with
  a colon. So it is if its node is well spelt (`Node.Spells.marked`).
* `Statement.DrawsAll.marked_names`, `Statement.DrawsAll.marked_fields`: then the states and the
  fields of the graph that is drawn have names that start with a colon.
-/

namespace ProtocolGraph

/-- The text starts with a colon. -/
def Text.Marked (text : String) : Prop :=
  text.toList.head? = some ':'

/-- The fields to which the valuation gives a value have names that start with a colon. -/
def Valuation.Marked (v : Valuation) : Prop :=
  ∀ e ∈ v.entries, Text.Marked e.1

namespace Statement

open Draft

/-- All names of states and of fields in the statement start with a colon. -/
structure Marked (s : Statement) : Prop where
  labels : ∀ n ∈ s.labels, Text.Marked n
  targets : ∀ n ∈ s.targets, Text.Marked n
  fields : ∀ label ∈ s.sends, ∀ v ∈ label.valuation, v.Marked

end Statement

/-! ## Reading -/

variable {l : Leniency} {n : Node} {ns : List Node} {s : Statement}

theorem Node.marked_of_wellSpelt [Text.Alphabet] {name : String}
    (h : (Node.keyword name).WellSpelt l) : Text.Marked name := by
  cases h
  assumption

theorem Node.keyword_mem_ofPairs {pairs : List (String × Node)} {q : String × Node}
    (h : q ∈ pairs) : .keyword q.1 ∈ ofPairs pairs :=
  List.mem_flatMap.mpr ⟨q, h, List.mem_cons_self⟩

theorem Valuation.Gives.marked [Text.Alphabet] {v : Valuation} {pairs : List (String × Node)}
    (h : v.Gives pairs) (spelt : ∀ n ∈ Node.ofPairs pairs, n.WellSpelt l) : v.Marked := by
  rintro ⟨key, e⟩ he
  obtain ⟨value, hq, -⟩ := (h key e).mp (v.find?_eq_some_iff.mpr he)
  exact Node.marked_of_wellSpelt (spelt _ (Node.keyword_mem_ofPairs hq))

/-- **What a well spelt node says** takes its names from keywords. -/
theorem Node.Spells.marked [Text.Alphabet] (h : n.Spells s) (spelt : n.WellSpelt l) : s.Marked := by
  induction h with
  | label name => exact ⟨List.forall_mem_singleton.mpr (marked_of_wellSpelt spelt), nofun, nofun⟩
  | send introduced distinct plain gives =>
    obtain ⟨inner⟩ := spelt
    have pairs := gives.marked fun n hn => inner n
      (List.mem_cons_of_mem _ (List.mem_append_right _ (List.mem_cons_of_mem _ hn)))
    refine ⟨nofun, nofun, List.forall_mem_singleton.mpr ?_⟩
    rintro _ ⟨⟩
    exact pairs
  | receive introduced => exact ⟨nofun, nofun, nofun⟩
  | jump target =>
    obtain ⟨inner⟩ := spelt
    have keyword := inner (.keyword target) (by simp)
    exact ⟨nofun, List.forall_mem_singleton.mpr (marked_of_wellSpelt keyword), nofun⟩
  | branch read inner ih =>
    obtain ⟨elements⟩ := spelt
    have consequent := ih (elements _ (by simp))
    exact ⟨consequent.labels, consequent.targets, consequent.fields⟩
  | branchElse read inner otherwise ihc iha =>
    obtain ⟨elements⟩ := spelt
    have consequent := ihc (elements _ (by simp))
    have alternative := iha (elements _ (by simp))
    exact ⟨List.forall_mem_append.mpr ⟨consequent.labels, alternative.labels⟩,
      List.forall_mem_append.mpr ⟨consequent.targets, alternative.targets⟩,
      List.forall_mem_append.mpr ⟨consequent.fields, alternative.fields⟩⟩

theorem Node.forall_marked [Text.Alphabet] {body : List Statement}
    (h : List.Forall₂ Node.Spells ns body) (spelt : ∀ n ∈ ns, n.WellSpelt l) :
    ∀ s ∈ body, s.Marked := by
  induction h with
  | nil => exact nofun
  | cons head _ ih =>
    obtain ⟨first, others⟩ := List.forall_mem_cons.mp spelt
    exact List.forall_mem_cons.mpr ⟨head.marked first, ih others⟩

/-! ## Drawing -/

namespace Statement

variable {body : List Statement} {d : Draft}

/-- The states of a graph have marked names if its body is marked. -/
theorem DrawsAll.marked_names (drawn : DrawsAll (afterStart body) Draft.empty d)
    (marked : ∀ s ∈ body, s.Marked) : ∀ n ∈ d.names, Text.Marked n := by
  intro n hn
  rcases drawn.mem_names_iff.mp hn with start | label | target
  · rw [List.mem_singleton.mp start]
    rfl
  · obtain ⟨s, hs, label⟩ := List.mem_flatMap.mp label
    exact (marked s ((List.dropWhile_suffix _).subset hs)).labels n label
  · rw [targets_afterStart] at target
    obtain ⟨s, hs, target⟩ := List.mem_flatMap.mp target
    exact (marked s hs).targets n target

/-- The messages sent in a graph have marked fields if its body is marked. -/
theorem DrawsAll.marked_fields (drawn : DrawsAll (afterStart body) Draft.empty d)
    (marked : ∀ s ∈ body, s.Marked) :
    ∀ t ∈ d.transitions, ∀ v ∈ t.label.valuation, v.Marked := by
  intro t ht v hv
  have valued : t.label ∈ d.recorded.filter (·.valuation.isSome) :=
    List.mem_filter.mpr ⟨List.mem_map_of_mem ht, Option.isSome_of_mem hv⟩
  have records : d.recorded = recordAll true (afterStart body) := drawn.records_eq
  rw [records, valued_recordAll, sends_afterStart] at valued
  obtain ⟨s, hs, sent⟩ := List.mem_flatMap.mp valued
  exact (marked s hs).fields _ sent v hv

end Statement

end ProtocolGraph
