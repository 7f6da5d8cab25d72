import ProtocolGraph.Proofs.Declaration.Grammar
import ProtocolGraph.Proofs.Model.Relaxed
import ProtocolGraph.Proofs.Statement.Accepted
import ProtocolGraph.Proofs.Text.ByteOrder

/-!
# Leniency is conservative

Tolerating more changes no model and no failure, other than those by the faults that are tolerated.
For unplaced labels it is known from the text which label it is that a strict reading reports.

* `Statement.Dangles`, `Declaration.Dangles`: the labels that a body, or a form that declares a
  process, jumps to without placing them.
* `DrawsAll.mem_unplaced_iff`: these are the unplaced labels of the finished draft.
* `Declaration.strict_of_lenient`: a form that can be read if unplaced labels are tolerated can be
  read anyhow if none dangles, and otherwise the least that does is reported.
* **`Model.ofSource_conservative`** is the result for source text.
-/

namespace ProtocolGraph

/-! ## Dangling labels -/

namespace Draft

variable {d e : Draft} {n : String}

/-- The unplaced label that is reported is the least in the order of bytes. -/
theorem bytes_le_of_unplaced {l : String} {rest : List String} (h : d.unplaced = l :: rest)
    (hn : n ∈ d.unplaced) : Text.bytes l ≤ Text.bytes n := by
  rw [Text.bytes_le_iff]
  have sorted := d.sorted_unplaced
  rw [h] at sorted hn
  rcases List.mem_cons.mp hn with rfl | hn
  · exact String.le_refl _
  · exact (List.pairwise_cons.mp sorted).1 n hn

/-- A draft without unplaced labels is completed in the same way whatever is tolerated. -/
theorem finish_of_unplaced_eq_nil (h : d.unplaced = []) (name : Option String)
    (leniency leniency' : Leniency) : d.finish leniency name = d.finish leniency' name := by
  simp only [finish, h, ite_self]

theorem finish_strict_of_unplaced_eq_cons {l : String} {rest : List String}
    (h : d.unplaced = l :: rest) (name : Option String) :
    d.finish .strict name = .error (.unplacedLabel l) := by
  unfold finish
  rw [h]
  rfl

end Draft

namespace Statement

open Draft

variable {body : List Statement} {e : Draft} {n : String}

/-- The body jumps to the label but does not place it. -/
def Dangles (body : List Statement) (n : String) : Prop :=
  n ∈ body.flatMap targets ∧ n ≠ startLabel ∧ n ∉ body.flatMap labels

/-- The labels that a finished draft leaves unplaced are those that dangle. -/
theorem DrawsAll.mem_unplaced_iff (drawn : DrawsAll (afterStart body) Draft.empty e) :
    n ∈ e.unplaced ↔ Dangles body n := by
  rw [Draft.mem_unplaced_iff, drawn.mem_names_iff, drawn.mem_placed_iff, targets_afterStart,
    not_or]
  unfold Dangles
  constructor
  · rintro ⟨named, other, unplaced⟩
    refine ⟨?_, other, unplaced⟩
    rcases named with hs | hl | ht
    · exact (other (List.mem_singleton.mp hs)).elim
    · exact (unplaced ((mem_labels_afterStart other body).mp hl)).elim
    · exact ht
  · rintro ⟨target, other, unplaced⟩
    exact ⟨Or.inr (Or.inr target), other, unplaced⟩

end Statement

namespace Declaration

open Outcome

variable {leniency : Leniency} {elements : List Node} {declaration : Declaration}

/-- The elements spell a process whose body jumps to the label but does not place it. -/
def Dangles (elements : List Node) (n : String) : Prop :=
  ∃ name vars body, Node.SpellsProcess elements name vars body ∧ Statement.Dangles body n

/-- The labels that dangle in a declared process are those that its body leaves unplaced. -/
theorem dangles_iff_mem_unplaced {name : Option String} {vars : List String}
    {body : List Statement} {d : Draft} (spelt : Node.SpellsProcess elements name vars body)
    (drawn : Statement.extendAll body Draft.empty = .done d) (n : String) :
    Dangles elements n ↔ n ∈ d.unplaced := by
  rw [(Statement.extendAll_empty_eq_done_iff.mp drawn).mem_unplaced_iff]
  constructor
  · rintro ⟨_, _, _, spelt', dangles⟩
    obtain ⟨-, -, rfl⟩ := spelt.unique spelt'
    exact dangles
  · exact fun dangles => ⟨name, vars, body, spelt, dangles⟩

/-- **What a strict reading makes of a form** that can be read if unplaced labels are tolerated. -/
theorem strict_of_lenient (h : ofElements leniency elements = .ok declaration) :
    ofElements .strict elements = .ok declaration ∧ (∀ n, ¬Dangles elements n) ∨
      ∃ l, Dangles elements l ∧ (∀ n, Dangles elements n → Text.bytes l ≤ Text.bytes n) ∧
        ofElements .strict elements = .error ⟨["defprocess"], .graph (.unplacedLabel l)⟩ := by
  cases ofElements_eq_ok_iff.mp h with
  | message named fields =>
    refine Or.inl ⟨ofElements_eq_ok_iff.mpr (.message named fields), ?_⟩
    rintro n ⟨_, _, _, spelt, -⟩
    obtain ⟨arguments, heq⟩ := spelt.exists_arguments
    simp at heq
  | @process arguments name rest vars body d p named bound drawn finished =>
    have spelt : Node.SpellsProcess (.symbol "defprocess" :: arguments) name vars
        (body.map Statement.ofNode) := .intro named bound (Statement.spells_of_extendAll drawn)
    simp only [dangles_iff_mem_unplaced spelt drawn]
    cases hu : d.unplaced with
    | nil =>
      rw [Draft.finish_of_unplaced_eq_nil hu name leniency .strict] at finished
      exact Or.inl ⟨ofElements_eq_ok_iff.mpr (.process named bound drawn finished),
        fun n => List.not_mem_nil⟩
    | cons l rest =>
      refine Or.inr ⟨l, List.mem_cons_self, fun n hn => Draft.bytes_le_of_unplaced hu (hu ▸ hn), ?_⟩
      show within "defprocess" ((readProcess .strict ⟨"defprocess", arguments⟩).map process) = _
      rw [readProcess_of_binds named bound, drawn]
      show within "defprocess" ((drawing ((d.finish .strict name).map _)).map process) = _
      rw [Draft.finish_strict_of_unplaced_eq_cons hu]
      rfl

end Declaration

/-! ## Sources -/

namespace Model

open Outcome

/-- The first form with a dangling label is to blame if nodes have a model only where unplaced
labels are tolerated. -/
theorem strict_ofNodes {leniency : Leniency} {nodes : List Node} {m : Model}
    (h : ofNodes leniency nodes = .ok m) : ofNodes .strict nodes = .ok m ∨
      ∃ before elements after l, nodes.filterMap Node.elements? = before ++ elements :: after ∧
        (∀ other ∈ before, ∀ n, ¬Declaration.Dangles other n) ∧
        Declaration.Dangles elements l ∧
        (∀ n, Declaration.Dangles elements n → Text.bytes l ≤ Text.bytes n) ∧
        ofNodes .strict nodes = .error ⟨["defprocess"], .graph (.unplacedLabel l)⟩ := by
  cases hs : ofNodes .strict nodes with
  | ok m' =>
    have relaxed := relaxes_ofNodes leniency nodes
    rw [hs] at relaxed
    exact Or.inl (relaxed.of_ok.symm.trans h)
  | error f =>
    refine Or.inr ?_
    obtain ⟨declarations, hd, -⟩ := map_eq_ok_iff.mp h
    obtain ⟨before, elements, after, split, read, fault⟩ :=
      mapM_eq_error_iff.mp (map_eq_error_iff.mp hs)
    have member : elements ∈ nodes.filterMap Node.elements? := by
      rw [split]
      exact List.mem_append_right _ List.mem_cons_self
    obtain ⟨declaration, lenient⟩ := exists_ok_of_mapM hd member
    rcases Declaration.strict_of_lenient lenient with ⟨strict, -⟩ | ⟨l, dangles, least, strict⟩
    · cases strict.symm.trans fault
    · refine ⟨before, elements, after, l, split, fun other ho => ?_, dangles, least, ?_⟩
      · obtain ⟨declaration, ok⟩ := read other ho
        rcases Declaration.strict_of_lenient ok with ⟨-, none⟩ | ⟨l', -, -, strict⟩
        · exact none
        · cases strict.symm.trans ok
      · exact congrArg Except.error (Except.error.inj (fault.symm.trans strict))

/-- **Leniency is conservative.** A text that has a model when nothing is tolerated has it whatever
is tolerated. One that fails so, neither for a quote that is never closed nor for an unplaced label,
fails in the same way whatever is tolerated. And a text that has a model when unplaced labels are
tolerated has it also when nothing is, unless labels dangle; then the failure is at the first
process where one does, and reports the least of its dangling labels in the order of bytes. -/
theorem ofSource_conservative [Text.Alphabet] (source : String) :
    (∀ m, ofSource .strict source = .ok m → ∀ leniency, ofSource leniency source = .ok m) ∧
    (∀ f, ofSource .strict source = .error f →
      (∀ offset, f.cause ≠ .token (.unterminatedText offset)) →
      (∀ label, f.cause ≠ .graph (.unplacedLabel label)) →
      ∀ leniency, ofSource leniency source = .error f) ∧
    ∀ m, ofSource { unplacedLabels := true } source = .ok m →
      ofSource .strict source = .ok m ∨
      ∃ nodes before elements after l, nodesOfSource .strict source = .ok nodes ∧
        nodes.filterMap Node.elements? = before ++ elements :: after ∧
        (∀ other ∈ before, ∀ n, ¬Declaration.Dangles other n) ∧
        Declaration.Dangles elements l ∧
        (∀ n, Declaration.Dangles elements n → Text.bytes l ≤ Text.bytes n) ∧
        ofSource .strict source = .error ⟨["defprocess"], .graph (.unplacedLabel l)⟩ := by
  refine ⟨fun m h leniency => ?_, fun f h untexted placed leniency => ?_, fun m h => ?_⟩
  · exact (h ▸ relaxes_ofSource leniency source).of_ok
  · refine (h ▸ relaxes_ofSource leniency source).of_error fun tolerable => ?_
    unfold Cause.Tolerable at tolerable
    split at tolerable
    · exact untexted _ ‹_›
    · exact placed _ ‹_›
    · exact tolerable
  · have same : nodesOfSource { unplacedLabels := true } source = nodesOfSource .strict source :=
      (nodesOfSource_lenient _ source).resolve_right fun h => by cases h.1
    rw [ofSource_eq_bind, same] at h
    obtain ⟨nodes, hn, h⟩ := bind_eq_ok_iff.mp h
    rw [ofSource_eq_bind, hn]
    rcases strict_ofNodes h with strict | ⟨before, elements, after, l, found⟩
    · exact Or.inl strict
    · obtain ⟨split, none, dangles, least, strict⟩ := found
      exact Or.inr ⟨nodes, before, elements, after, l, rfl, split, none, dangles, least, strict⟩

/-- A text that has a model, one that has none, and one in which two labels dangle. -/
theorem ofSource_conservative_dangling :
    ofSource .strict "(defmessage Ping)" = .ok ⟨[⟨"Ping", []⟩], []⟩ ∧
    ofSource { unterminatedText := true } "(defmessage Ping)" = .ok ⟨[⟨"Ping", []⟩], []⟩ ∧
    ofSource .strict ")" = .error ⟨[], .node (.unexpectedToken ")" 0)⟩ ∧
    ofSource { unplacedLabels := true } ")" = .error ⟨[], .node (.unexpectedToken ")" 0)⟩ ∧
    ∃ m, ofSource { unplacedLabels := true } "(defprocess (if x (goto :b) (goto :a)))" = .ok m ∧
      ofSource .strict "(defprocess (if x (goto :b) (goto :a)))" =
        .error ⟨["defprocess"], .graph (.unplacedLabel ":a")⟩ := by
  have read : ofSource .strict "(defmessage Ping)" = .ok ⟨[⟨"Ping", []⟩], []⟩ := by
    decide +kernel
  have failed : ofSource .strict ")" = .error ⟨[], .node (.unexpectedToken ")" 0)⟩ := by
    decide +kernel
  have lenient : ofSource { unplacedLabels := true } "(defprocess (if x (goto :b) (goto :a)))" =
      .ok ⟨[], [{
        vars := []
        initial := 1
        states := [⟨1, some ":start"⟩, ⟨2, none⟩, ⟨3, some ":b"⟩, ⟨4, none⟩, ⟨5, some ":a"⟩]
        transitions := [⟨1, 2, .entering (.reference "x")⟩, ⟨2, 3, {}⟩,
          ⟨1, 4, .passing (.reference "x")⟩, ⟨4, 5, {}⟩] }]⟩ := by
    decide +kernel
  have parsed : nodesOfSource .strict "(defprocess (if x (goto :b) (goto :a)))" =
      .ok [.list [.symbol "defprocess", .list [.symbol "if", .symbol "x",
        .list [.symbol "goto", .keyword ":b"], .list [.symbol "goto", .keyword ":a"]]]] := by
    with_unfolding_all rfl
  refine ⟨read, (ofSource_conservative _).1 _ read _, failed,
    (ofSource_conservative _).2.1 _ failed nofun nofun _, _, lenient, ?_⟩
  rcases (ofSource_conservative _).2.2 _ lenient with
    ok | ⟨nodes, before, elements, after, l, found⟩
  · -- the process has a label that nothing places, which a strict reading does not tolerate
    rw [ofSource_eq_bind, parsed] at ok
    obtain ⟨_, d, ⟨_, hn, -, spelt⟩, drawn, -, complete⟩ :=
      exists_graph ok (List.mem_singleton_self _)
    obtain rfl := Node.list.inj (List.mem_singleton.mp hn)
    obtain ⟨-, -, rfl⟩ := spelt.of_list
    have unplaced : ":a" ∈ d.unplaced := by
      rw [(Statement.extendAll_empty_eq_done_iff.mp drawn).mem_unplaced_iff]
      exact ⟨.tail _ (.head _), by decide, nofun⟩
    rw [complete.resolve_left nofun] at unplaced
    cases unplaced
  · obtain ⟨nodes_eq, split, -, dangles, least, reported⟩ := found
    cases parsed.symm.trans nodes_eq
    obtain ⟨rfl, heq⟩ | ⟨w, -, none⟩ := List.append_eq_cons_iff.mp split.symm
    · obtain ⟨rfl, -⟩ := List.cons.inj heq
      obtain ⟨_, _, body, spelt, target, -, -⟩ := dangles
      obtain ⟨-, -, rfl⟩ := spelt.of_list
      have first := least ":a" ⟨_, _, _, spelt, .tail _ (.head _), by decide, nofun⟩
      obtain rfl | rfl : l = ":b" ∨ l = ":a" := List.mem_pair.mp target
      · exact absurd first (by decide)
      · exact reported
    · exact absurd none.symm (List.append_ne_nil_of_right_ne_nil w (List.cons_ne_nil _ _))

end Model

end ProtocolGraph
