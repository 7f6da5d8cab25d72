import ProtocolGraph.Proofs.Outcome
import ProtocolGraph.Statement.Basic

/-!
# Nodes that spell statements

`Node.IsStatement` is the grammar of statements, in the terms of nodes alone.

* `Node.Plain`: no quoted text or keyword occurs in the node; these are the nodes that have an
  expression (`Expression.exists_ofNode_iff`).
* `Statement.exists_readPairs_iff`: pairs can be read when they are pairs of a keyword and a plain
  node, and no keyword occurs twice.
* **`Node.isStatement_iff`**: a node is in the grammar exactly when the statement that is read from
  it has a meaning, to the bottom of its branches (`Statement.Meaningful`).
-/

namespace ProtocolGraph

/-! ## Expressions -/

/-- No quoted text and no keyword occurs in the node. -/
inductive Node.Plain : Node → Prop
  | symbol (name) : Plain (.symbol name)
  | int (value) : Plain (.int value)
  | list {elements} (inner : ∀ n ∈ elements, Plain n) : Plain (.list elements)

namespace Expression

theorem exists_ofNodes_iff {ns : List Node}
    (each : ∀ n ∈ ns, (∃ e, ofNode n = .ok e) ↔ n.Plain) :
    (∃ es, ofNodes ns = .ok es) ↔ ∀ n ∈ ns, n.Plain := by
  induction ns with
  | nil => exact ⟨fun _ _ hn => (List.not_mem_nil hn).elim, fun _ => ⟨[], rfl⟩⟩
  | cons n rest ih =>
    have head := each n List.mem_cons_self
    have tail := ih fun m hm => each m (List.mem_cons_of_mem n hm)
    rw [List.forall_mem_cons, ← head, ← tail, ofNodes]
    cases ofNode n with
    | error kind => simp
    | ok e => simp [Outcome.map_eq_ok_iff]

/-- **The nodes that have an expression** are the plain ones. -/
theorem exists_ofNode_iff (n : Node) : (∃ e, ofNode n = .ok e) ↔ n.Plain := by
  induction n using Node.induction with
  | list elements ih =>
    have inner := exists_ofNodes_iff ih
    rw [ofNode]
    simp only [Outcome.map_eq_ok_iff]
    constructor
    · rintro ⟨_, es, hes, -⟩
      exact .list (inner.mp ⟨es, hes⟩)
    · intro h
      cases h with
      | list h =>
        obtain ⟨es, hes⟩ := inner.mpr h
        exact ⟨_, es, hes, rfl⟩
  | string text =>
    constructor
    · rintro ⟨_, h⟩
      cases h
    · intro h
      cases h
  | int value => exact ⟨fun _ => .int value, fun _ => ⟨_, rfl⟩⟩
  | keyword name =>
    constructor
    · rintro ⟨_, h⟩
      cases h
    · intro h
      cases h
  | symbol name => exact ⟨fun _ => .symbol name, fun _ => ⟨_, rfl⟩⟩

end Expression

/-! ## The grammar -/

namespace Node

/-- The nodes name a message, which `:message` may introduce. -/
inductive NamesMessage : List Node → Prop
  | bare (message) : NamesMessage [.symbol message]
  | introduced (message) : NamesMessage [.keyword ":message", .symbol message]

/-- Keywords, each followed by its value. -/
def ofPairs (pairs : List (String × Node)) : List Node :=
  pairs.flatMap fun q => [.keyword q.1, q.2]

/-- The node spells a statement. -/
inductive IsStatement : Node → Prop
  | label (name) : IsStatement (.keyword name)
  | send {message pairs} (named : NamesMessage message) (distinct : (pairs.map Prod.fst).Nodup)
      (plain : ∀ q ∈ pairs, q.2.Plain) :
      IsStatement (.list (.symbol "!send" :: (message ++ ofPairs pairs)))
  | receive {message} (named : NamesMessage message) :
      IsStatement (.list (.symbol "?receive" :: message))
  | jump (target) : IsStatement (.list [.symbol "goto", .keyword target])
  | branch {guard consequent} (plain : guard.Plain) (inner : IsStatement consequent) :
      IsStatement (.list [.symbol "if", guard, consequent])
  | branchElse {guard consequent alternative} (plain : guard.Plain) (inner : IsStatement consequent)
      (otherwise : IsStatement alternative) :
      IsStatement (.list [.symbol "if", guard, consequent, alternative])

end Node

namespace Statement

/-- Nothing was misread, and nothing is foreign, to the bottom of the branches. -/
def Meaningful : Statement → Prop
  | .label _ | .send _ _ | .receive _ | .jump _ => True
  | .branch _ consequent => consequent.Meaningful
  | .branchElse _ consequent alternative => consequent.Meaningful ∧ alternative.Meaningful
  | .misread _ _ | .foreign _ => False

/-! ## Arguments -/

theorem expectSymbol_eq_ok_iff {n : Node} {name : String} :
    n.expectSymbol = .ok name ↔ n = .symbol name := by
  cases n <;> simp [Node.expectSymbol]

theorem expectKeyword_eq_ok_iff {n : Node} {name : String} :
    n.expectKeyword = .ok name ↔ n = .keyword name := by
  cases n <;> simp [Node.expectKeyword]

theorem exists_readMessage_iff {f g : Form} : (∃ message, readMessage f = .ok (message, g)) ↔
    ∃ ns, Node.NamesMessage ns ∧ f = ⟨g.name, ns ++ g.arguments⟩ := by
  unfold readMessage
  constructor
  · rintro ⟨message, h⟩
    split at h
    · cases h
    · rename_i n f' hn
      split at h
      · cases h
      · rename_i name hs
        cases h
        rw [expectSymbol_eq_ok_iff] at hs
        subst hs
        rcases Form.named_eq_ok_iff.mp hn with hf | ⟨hf, -⟩
        · exact ⟨_, .introduced message, hf⟩
        · exact ⟨_, .bare message, hf⟩
  · rintro ⟨ns, named, rfl⟩
    cases named with
    | bare message => exact ⟨message, rfl⟩
    | introduced message => exact ⟨message, rfl⟩

theorem readPairs_cons_eq_ok_iff {v w : Valuation} {key : String} {value : Node}
    {rest : List Node} : readPairs v (.keyword key :: value :: rest) = .ok w ↔
      v.find? key = none ∧
        ∃ e, Expression.ofNode value = .ok e ∧ readPairs (v.insert key e) rest = .ok w := by
  rw [readPairs]
  cases v.find? key with
  | some e => simp
  | none => cases Expression.ofNode value <;> simp

theorem exists_readPairs_cons_iff {v : Valuation} {key : String} {value : Node}
    {rest : List Node} : (∃ w, readPairs v (.keyword key :: value :: rest) = .ok w) ↔
      v.find? key = none ∧
        ∃ e, Expression.ofNode value = .ok e ∧ ∃ w, readPairs (v.insert key e) rest = .ok w := by
  simp only [readPairs_cons_eq_ok_iff, exists_and_left]
  rw [exists_comm]
  simp only [exists_and_left]

/-- **Pairs can be read** when their values are plain and no keyword occurs twice. -/
theorem exists_readPairs_iff (v : Valuation) (arguments : List Node) :
    (∃ w, readPairs v arguments = .ok w) ↔ ∃ pairs, arguments = Node.ofPairs pairs ∧
      (pairs.map Prod.fst).Nodup ∧ (∀ q ∈ pairs, v.find? q.1 = none) ∧
      ∀ q ∈ pairs, q.2.Plain := by
  constructor
  · intro h
    induction v, arguments using readPairs.induct with
    | case1 v => exact ⟨[], rfl, List.nodup_nil, by simp, by simp⟩
    | case2 v key =>
      obtain ⟨w, h⟩ := h
      cases h
    | case3 v key value rest again =>
      rw [(exists_readPairs_cons_iff.mp h).1] at again
      cases again
    | case4 v key value rest fresh kind hk =>
      obtain ⟨-, e, he, -⟩ := exists_readPairs_cons_iff.mp h
      cases hk.symm.trans he
    | case5 v key value rest fresh e he ih =>
      obtain ⟨unread, e', he', h⟩ := exists_readPairs_cons_iff.mp h
      obtain rfl : e = e' := Except.ok.inj (he.symm.trans he')
      obtain ⟨pairs, rfl, distinct, rest_unread, plain⟩ := ih h
      have other : ∀ q ∈ pairs, q.1 ≠ key ∧ v.find? q.1 = none := fun q hq => by
        have free := rest_unread q hq
        rw [Valuation.find?_insert] at free
        split at free
        · cases free
        · exact ⟨‹_›, free⟩
      refine ⟨(key, value) :: pairs, rfl, List.nodup_cons.mpr ⟨fun hk => ?_, distinct⟩, ?_, ?_⟩
      · obtain ⟨q, hq, heq⟩ := List.mem_map.mp hk
        exact (other q hq).1 heq
      · exact List.forall_mem_cons.mpr ⟨unread, fun q hq => (other q hq).2⟩
      · exact List.forall_mem_cons.mpr ⟨(Expression.exists_ofNode_iff value).mp ⟨e, he⟩, plain⟩
    | case6 v n tail single pair =>
      obtain ⟨w, h⟩ := h
      cases n with
      | keyword key =>
        cases tail with
        | nil => exact (single key rfl rfl).elim
        | cons value rest => exact (pair key value rest rfl rfl).elim
      | _ => cases h
  · rintro ⟨pairs, rfl, distinct, unread, plain⟩
    induction pairs generalizing v with
    | nil => exact ⟨v, rfl⟩
    | cons q rest ih =>
      obtain ⟨key, value⟩ := q
      obtain ⟨fresh, distinct⟩ := List.nodup_cons.mp distinct
      obtain ⟨hkey, unread⟩ := List.forall_mem_cons.mp unread
      obtain ⟨hvalue, plain⟩ := List.forall_mem_cons.mp plain
      obtain ⟨e, he⟩ := (Expression.exists_ofNode_iff value).mpr hvalue
      refine exists_readPairs_cons_iff.mpr ⟨hkey, e, he, ih _ distinct (fun q hq => ?_) plain⟩
      have other : q.1 ≠ key := fun heq => fresh (List.mem_map.mpr ⟨q, hq, heq⟩)
      rw [Valuation.find?_insert, if_neg other]
      exact unread q hq

/-- The pairs of a form that is read from the start. -/
theorem exists_readPairs_empty_iff (arguments : List Node) :
    (∃ w, readPairs ∅ arguments = .ok w) ↔ ∃ pairs, arguments = Node.ofPairs pairs ∧
      (pairs.map Prod.fst).Nodup ∧ ∀ q ∈ pairs, q.2.Plain := by
  rw [exists_readPairs_iff]
  refine exists_congr fun pairs => and_congr_right fun _ => and_congr_right fun _ => ?_
  exact and_iff_right fun q _ => Valuation.find?_empty q.1

/-! ## Forms -/

theorem meaningful_orMisread_iff {form : String} {r : Except Cause Statement} :
    (orMisread form r).Meaningful ↔ ∃ s, r = .ok s ∧ s.Meaningful := by
  cases r <;> simp [orMisread, Meaningful]

theorem meaningful_guarded_iff {guard : Node} {statement : Expression → Statement} :
    (guarded guard statement).Meaningful ↔
      ∃ e, Expression.ofNode guard = .ok e ∧ (statement e).Meaningful := by
  unfold guarded
  cases Expression.ofNode guard <;> simp [Meaningful]

theorem exists_send_of_read {f : Form} {s : Statement} (read : readSend f = .ok s) :
    ∃ message valuation, s = .send message valuation := by
  unfold readSend at read
  split at read
  · cases read
  · obtain ⟨valuation, -, rfl⟩ := Outcome.map_eq_ok_iff.mp read
    exact ⟨_, valuation, rfl⟩

theorem exists_receive_of_read {f : Form} {s : Statement} (read : readReceive f = .ok s) :
    ∃ message, s = .receive message := by
  unfold readReceive at read
  split at read
  · cases read
  · obtain ⟨_, -, rfl⟩ := Outcome.map_eq_ok_iff.mp read
    exact ⟨_, rfl⟩

theorem exists_jump_of_read {f : Form} {s : Statement} (read : readJump f = .ok s) :
    ∃ target, s = .jump target := by
  unfold readJump at read
  split at read
  · cases read
  · split at read
    · cases read
    · obtain ⟨_, -, rfl⟩ := Outcome.map_eq_ok_iff.mp read
      exact ⟨_, rfl⟩

/-- A form of another name than `if` holds no statement inside itself. -/
theorem ofForm_cases (f : Form) :
    (∃ message valuation, ofForm f = .send message valuation) ∨
    (∃ message, ofForm f = .receive message) ∨ (∃ target, ofForm f = .jump target) ∨
    (∃ cause, ofForm f = .misread f.name cause) ∨ ∃ cause, ofForm f = .foreign cause := by
  unfold ofForm
  split_ifs
  · cases read : readSend f with
    | error cause => exact Or.inr (Or.inr (Or.inr (Or.inl ⟨cause, rfl⟩)))
    | ok s => exact Or.inl (exists_send_of_read read)
  · cases read : readReceive f with
    | error cause => exact Or.inr (Or.inr (Or.inr (Or.inl ⟨cause, rfl⟩)))
    | ok s => exact Or.inr (Or.inl (exists_receive_of_read read))
  · cases read : readJump f with
    | error cause => exact Or.inr (Or.inr (Or.inr (Or.inl ⟨cause, rfl⟩)))
    | ok s => exact Or.inr (Or.inr (Or.inl (exists_jump_of_read read)))
  all_goals exact Or.inr (Or.inr (Or.inr (Or.inr ⟨_, rfl⟩)))

theorem meaningful_send_iff {arguments : List Node} :
    (ofForm ⟨"!send", arguments⟩).Meaningful ↔
      ∃ message pairs, arguments = message ++ Node.ofPairs pairs ∧ Node.NamesMessage message ∧
        (pairs.map Prod.fst).Nodup ∧ ∀ q ∈ pairs, q.2.Plain := by
  show (orMisread "!send" _).Meaningful ↔ _
  rw [meaningful_orMisread_iff]
  unfold readSend
  constructor
  · rintro ⟨s, h, -⟩
    split at h
    · cases h
    · rename_i message g hm
      obtain ⟨w, hw, -⟩ := Outcome.map_eq_ok_iff.mp h
      obtain ⟨ns, named, hf⟩ := exists_readMessage_iff.mp ⟨message, hm⟩
      obtain ⟨pairs, hp, distinct, plain⟩ := (exists_readPairs_empty_iff _).mp ⟨w, hw⟩
      exact ⟨ns, pairs, hp ▸ congrArg Form.arguments hf, named, distinct, plain⟩
  · rintro ⟨ns, pairs, rfl, named, distinct, plain⟩
    obtain ⟨message, hm⟩ := (exists_readMessage_iff (f := ⟨"!send", ns ++ Node.ofPairs pairs⟩)
      (g := ⟨"!send", Node.ofPairs pairs⟩)).mpr ⟨ns, named, rfl⟩
    obtain ⟨w, hw⟩ := (exists_readPairs_empty_iff _).mpr ⟨pairs, rfl, distinct, plain⟩
    refine ⟨.send message w, ?_, trivial⟩
    rw [hm]
    exact Outcome.map_eq_ok_iff.mpr ⟨w, hw, rfl⟩

theorem meaningful_receive_iff {arguments : List Node} :
    (ofForm ⟨"?receive", arguments⟩).Meaningful ↔ Node.NamesMessage arguments := by
  show (orMisread "?receive" _).Meaningful ↔ _
  rw [meaningful_orMisread_iff]
  unfold readReceive
  constructor
  · rintro ⟨s, h, -⟩
    split at h
    · cases h
    · rename_i message g hm
      obtain ⟨⟨⟩, finished, -⟩ := Outcome.map_eq_ok_iff.mp h
      have exhausted := Form.finish_eq_ok_iff.mp (Outcome.mapError_eq_ok_iff.mp finished)
      obtain ⟨ns, named, hf⟩ := exists_readMessage_iff.mp ⟨message, hm⟩
      rw [exhausted, List.append_nil] at hf
      obtain ⟨-, rfl⟩ := Form.mk.inj hf
      exact named
  · intro named
    obtain ⟨message, hm⟩ := (exists_readMessage_iff (f := ⟨"?receive", arguments⟩)
      (g := ⟨"?receive", []⟩)).mpr ⟨arguments, named, by rw [List.append_nil]⟩
    refine ⟨.receive message, ?_, trivial⟩
    rw [hm]
    rfl

theorem meaningful_jump_iff {arguments : List Node} :
    (ofForm ⟨"goto", arguments⟩).Meaningful ↔ ∃ target, arguments = [.keyword target] := by
  show (orMisread "goto" _).Meaningful ↔ _
  rw [meaningful_orMisread_iff]
  unfold readJump
  constructor
  · rintro ⟨s, h, -⟩
    split at h
    · cases h
    · rename_i n g hn
      split at h
      · cases h
      · rename_i target ht
        obtain ⟨⟨⟩, finished, -⟩ := Outcome.map_eq_ok_iff.mp h
        have exhausted := Form.finish_eq_ok_iff.mp (Outcome.mapError_eq_ok_iff.mp finished)
        have hf := Form.positional_eq_ok_iff.mp hn
        rw [exhausted, expectKeyword_eq_ok_iff.mp ht] at hf
        exact ⟨target, congrArg Form.arguments hf⟩
  · rintro ⟨target, rfl⟩
    exact ⟨.jump target, rfl, trivial⟩

/-- Only three names stand for statements, other than `if`. -/
theorem name_of_meaningful {f : Form} (h : (ofForm f).Meaningful) :
    f.name = "!send" ∨ f.name = "?receive" ∨ f.name = "goto" := by
  unfold ofForm at h
  split at h
  · exact Or.inl ‹_›
  · split at h
    · exact Or.inr (Or.inl ‹_›)
    · split at h
      · exact Or.inr (Or.inr ‹_›)
      · split at h <;> exact h.elim

end Statement

/-! ## The grammar is what is read -/

namespace Node

open Statement

theorem IsStatement.meaningful {n : Node} (h : n.IsStatement) : (ofNode n).Meaningful := by
  induction h with
  | label name => trivial
  | send named distinct plain => exact meaningful_send_iff.mpr ⟨_, _, rfl, named, distinct, plain⟩
  | receive named => exact meaningful_receive_iff.mpr named
  | jump target => trivial
  | branch plain inner ih =>
    obtain ⟨e, he⟩ := (Expression.exists_ofNode_iff _).mpr plain
    rw [ofNode]
    exact meaningful_guarded_iff.mpr ⟨e, he, ih⟩
  | branchElse plain inner otherwise ihc iha =>
    obtain ⟨e, he⟩ := (Expression.exists_ofNode_iff _).mpr plain
    rw [ofNode]
    exact meaningful_guarded_iff.mpr ⟨e, he, ihc, iha⟩

theorem ofNode_of_ne {name : String} (h : name ≠ "if") (arguments : List Node) :
    ofNode (.list (.symbol name :: arguments)) = ofForm ⟨name, arguments⟩ := by
  rw [ofNode]
  exact h

theorem ofNode_branch {guard consequent : Node} {condition : Expression}
    (read : Expression.ofNode guard = .ok condition) :
    ofNode (.list [.symbol "if", guard, consequent]) = .branch condition (ofNode consequent) := by
  rw [ofNode, guarded, read]

theorem ofNode_branchElse {guard consequent alternative : Node} {condition : Expression}
    (read : Expression.ofNode guard = .ok condition) :
    ofNode (.list [.symbol "if", guard, consequent, alternative]) =
      .branchElse condition (ofNode consequent) (ofNode alternative) := by
  rw [ofNode, guarded, read]

/-- A branch whose guard has no meaning is misread, whatever comes behind the guard. -/
theorem ofNode_unguarded {guard : Node} {kind : Kind}
    (wrong : Expression.ofNode guard = .error kind) (rest : List Node) :
    ofNode (.list (.symbol "if" :: guard :: rest)) = .misread "if" (.expression kind) := by
  have misread : ∀ statement, guarded guard statement = .misread "if" (.expression kind) :=
    fun statement => by rw [guarded, wrong]
  rcases rest with _ | ⟨consequent, _ | ⟨alternative, _ | ⟨extra, rest⟩⟩⟩
  · exact misread _
  · rw [ofNode, misread]
  · rw [ofNode, misread]
  · rw [ofNode, misread]
    exact List.cons_ne_nil extra rest

/-- A form of another name than `if` that has a meaning is in the grammar. -/
theorem isStatement_of_form {f : Form} (h : (ofForm f).Meaningful) :
    (list (symbol f.name :: f.arguments)).IsStatement := by
  obtain ⟨name, arguments⟩ := f
  rcases name_of_meaningful h with rfl | rfl | rfl
  · obtain ⟨message, pairs, rfl, named, distinct, plain⟩ := meaningful_send_iff.mp h
    exact .send named distinct plain
  · exact .receive (meaningful_receive_iff.mp h)
  · obtain ⟨target, rfl⟩ := meaningful_jump_iff.mp h
    exact .jump target

/-- **The grammar of statements** is what is read without fault. -/
theorem isStatement_iff (n : Node) : n.IsStatement ↔ (ofNode n).Meaningful := by
  refine ⟨IsStatement.meaningful, ?_⟩
  induction n using Node.induction with
  | list elements ih =>
    intro h
    rcases elements with _ | ⟨head, arguments⟩
    · exact h.elim
    · cases head with
      | symbol name =>
        by_cases hname : name = "if"
        · subst hname
          rcases arguments with _ | ⟨guard, _ | ⟨consequent, _ | ⟨alternative, _ | ⟨_, _⟩⟩⟩⟩
          · exact h.elim
          · obtain ⟨e, -, h⟩ := meaningful_guarded_iff.mp h
            exact h.elim
          · obtain ⟨e, he, h⟩ := meaningful_guarded_iff.mp (by rwa [ofNode] at h)
            exact .branch ((Expression.exists_ofNode_iff guard).mp ⟨e, he⟩)
              (ih consequent (by simp) h)
          · obtain ⟨e, he, h⟩ := meaningful_guarded_iff.mp (by rwa [ofNode] at h)
            exact .branchElse ((Expression.exists_ofNode_iff guard).mp ⟨e, he⟩)
              (ih consequent (by simp) h.1) (ih alternative (by simp) h.2)
          · obtain ⟨e, -, h⟩ := meaningful_guarded_iff.mp h
            exact h.elim
        · rw [ofNode_of_ne hname] at h
          exact isStatement_of_form h
      | _ => exact h.elim
  | keyword name => exact fun _ => .label name
  | _ => exact fun h => h.elim

end Node

end ProtocolGraph
