import ProtocolGraph.Model.Source
import ProtocolGraph.Proofs.Builder.Process
import ProtocolGraph.Proofs.Draft.Scopes
import ProtocolGraph.Proofs.Statement.Room
import ProtocolGraph.Proofs.Token.Cutting

/-!
# Numbers fit into words

The states and the variables of a process are numbered as they come, and a number takes 32 bits.
There are enough for every source text whose length does: what a form asks for is paid for by its
tokens, at every moment of the reading.

* `Declaration.length_run_edits_le`: as the arguments of a form are read, there come to be no more
  states and variables than tokens.
* `Edit.length_run_le_of_prefix`: before that there are no more than then.
* `Token.Divides.length_le`: there are no more tokens than bytes.
* **`Declaration.numbers_fit`**: there are enough numbers at every moment, and none is given twice.
-/

namespace ProtocolGraph

open Edit Outcome

namespace Declaration

variable {f : Form} {names arguments : List Node} {inner : List Token}

/-! ## Counting -/

theorem run_bindEdits_le (names : List Node) : ∀ d : Draft,
    (run (bindEdits names d) d).states = d.states ∧
      (run (bindEdits names d) d).vars.length ≤ d.vars.length + names.length := by
  induction names with
  | nil => exact fun d => ⟨rfl, Nat.le_refl _⟩
  | cons n rest ih =>
    intro d
    cases n with
    | symbol name =>
      cases bound : d.bind name with
      | error fault =>
        rw [run_bindEdits_of_error bound]
        exact ⟨rfl, Nat.le_add_right _ _⟩
      | ok r =>
        obtain ⟨x, e⟩ := r
        obtain ⟨states, vars⟩ := ih e
        obtain ⟨_, _, -, -, -, rfl⟩ := Draft.bind_eq_ok_iff.mp bound
        rw [run_bindEdits_of_ok bound, states, List.length_cons]
        rw [Draft.withVariables, List.length_append, List.length_singleton] at vars
        exact ⟨rfl, Nat.le_trans vars (by omega)⟩
    | _ => exact ⟨rfl, Nat.le_add_right _ _⟩

theorem states_run_variableEdits (f : Form) :
    (run (variableEdits f) Draft.empty.openScope).states = Draft.empty.states := by
  unfold variableEdits
  split
  · exact (run_bindEdits_le _ _).1
  · rfl

theorem length_vars_run_variableEdits_le (derived : Node.DerivesAll f.arguments inner) :
    (run (variableEdits f) Draft.empty.openScope).vars.length ≤ inner.length := by
  unfold variableEdits
  split
  · rename_i names body spelt
    rw [spelt] at derived
    simp only [Node.derivesAll_cons_iff] at derived
    obtain ⟨us, _, rfl, -, vs, ws, rfl, list, -⟩ := derived
    obtain ⟨inner, derived, length⟩ := list.exists_inner
    have vars : _ ≤ 0 + names.length := (run_bindEdits_le names Draft.empty.openScope).2
    have names_le := derived.length_le
    rw [List.length_append, List.length_append]
    omega
  · exact Nat.zero_le _

/-- **States and variables are paid for** by the tokens of the arguments. -/
theorem length_run_edits_le (derived : Node.DerivesAll arguments inner) :
    (run (edits arguments) Draft.empty).states.length ≤ inner.length + 1 ∧
      (run (edits arguments) Draft.empty).vars.length ≤ inner.length := by
  unfold edits
  cases named : readName ⟨"defprocess", arguments⟩ with
  | error failure => exact ⟨Nat.le_add_left 1 _, Nat.zero_le _⟩
  | ok r =>
    obtain ⟨name, f⟩ := r
    obtain ⟨us, rest, suffix⟩ := derived.exists_suffix (suffix_of_readName named)
    have vars := Nat.le_trans (length_vars_run_variableEdits_le rest) suffix.length_le
    have states := states_run_variableEdits f
    have sound := (grown_run (openScope :: variableEdits f) Draft.sound_empty).sound
    show (run (variableEdits f ++ _) Draft.empty.openScope).states.length ≤ _ ∧
      (run (variableEdits f ++ _) Draft.empty.openScope).vars.length ≤ _
    rw [run_append]
    cases bound : readVariables f with
    | error failure => exact ⟨states ▸ Nat.le_add_left 1 _, vars⟩
    | ok r =>
      obtain ⟨d, body⟩ := r
      have reached := run_variableEdits bound
      obtain ⟨ws, statements, suffix'⟩ := rest.exists_suffix (suffix_of_readVariables bound)
      have drawn := Statement.length_states_extendAll_le (body.map Statement.ofNode) d
      have room := statements.roomAll_le
      have kept := (Statement.extends_extendAll (body.map Statement.ofNode) (reached ▸ sound)).vars
      have one : d.states.length = 1 := congrArg List.length (reached ▸ states)
      have suffix_le := Nat.le_trans suffix'.length_le suffix.length_le
      rw [reached] at vars ⊢
      rw [Statement.run_editsAll, kept]
      exact ⟨by omega, vars⟩

end Declaration

/-! ## Moments -/

namespace Edit

/-- A history never undoes states or variables. -/
theorem length_run_le_of_prefix {before edits : List Edit} (h : before <+: edits) :
    (run before Draft.empty).states.length ≤ (run edits Draft.empty).states.length ∧
      (run before Draft.empty).vars.length ≤ (run edits Draft.empty).vars.length := by
  obtain ⟨after, rfl⟩ := h
  rw [run_append]
  have grown := grown_run after (grown_run before Draft.sound_empty).sound
  refine ⟨grown.states.length_le, ?_⟩
  rw [vars_run after, List.length_append]
  exact Nat.le_add_right _ _

end Edit

/-! ## Words -/

/-- Numbers that differ are different words, if each fits into a word. -/
theorem nodup_words {numbers : List Nat} (distinct : numbers.Nodup)
    (fit : ∀ n ∈ numbers, n < UInt32.size) : (numbers.map UInt32.ofNat).Nodup := by
  refine List.Nodup.map_on (fun m hm n hn same => ?_) distinct
  have values := congrArg UInt32.toNat same
  rwa [UInt32.toNat_ofNat_of_lt' (fit m hm), UInt32.toNat_ofNat_of_lt' (fit n hn)] at values

theorem Variable.map_id_numbered (start : VariableId) (names : List String) :
    (numbered start names).map Variable.id = List.range' start names.length := by
  rw [numbered, List.map_map]
  exact List.zipIdx_map_snd start names

namespace Edit

variable (history : List Edit)

/-- No number of a state is given twice, as long as the next one fits into a word. -/
theorem nodup_stateWords (fit : (run history Draft.empty).nextState ≤ UInt32.size) :
    (((run history Draft.empty).states.map State.id).map UInt32.ofNat).Nodup := by
  rw [(grown_run history Draft.sound_empty).sound.ids]
  refine nodup_words List.nodup_range' fun id hid => ?_
  have fit : (run history Draft.empty).states.length + 1 ≤ UInt32.size := fit
  rw [List.mem_range'_1] at hid
  omega

/-- No number of a variable is given twice, as long as the next one fits into a word. -/
theorem nodup_variableWords (fit : (run history Draft.empty).vars.length ≤ UInt32.size) :
    (((run history Draft.empty).vars.map Variable.id).map UInt32.ofNat).Nodup := by
  have vars : (run history Draft.empty).vars = Variable.numbered 0 _ := vars_run history _
  rw [vars, Variable.numbered, List.length_map, List.length_zipIdx] at fit
  rw [vars, Variable.map_id_numbered]
  refine nodup_words List.nodup_range' fun id hid => ?_
  rw [List.mem_range'_1] at hid
  omega

end Edit

namespace Declaration

variable {l : Leniency} {source : String} {tokens own : List Token} {nodes arguments : List Node}

/-- **States and variables are paid for** by the tokens of the form, at every moment. Two tokens are
left over. -/
theorem length_run_le_of_derives {history : List Edit}
    (derived : Node.Derives (.list (.symbol "defprocess" :: arguments)) own)
    (moment : history <+: edits arguments) :
    (run history Draft.empty).states.length + 2 ≤ own.length ∧
      (run history Draft.empty).vars.length + 2 ≤ own.length := by
  obtain ⟨all, derived, length⟩ := derived.exists_inner
  obtain ⟨us, inner, rfl, name, derived⟩ := Node.derivesAll_cons_iff.mp derived
  have name_pos := name.length_pos
  obtain ⟨states_le, vars_le⟩ := length_run_le_of_prefix moment
  obtain ⟨states, vars⟩ := length_run_edits_le derived
  rw [List.length_append] at length
  omega

/-- **There are enough numbers.** Let a form that declares a process be read from a source text. It
is read from tokens of its own, which are no more than the source has bytes. The operations of the
reading lead to what the builder of the process is left with, whether the reading fails or not, and
if the header can be read, this is what the body leaves when it is drawn. At every moment on the
way there are no more states, and no more variables, than the form has tokens. So if the source
has fewer than 2^32 bytes, the number of the next state and that of the next variable are words of
32 bits at every moment, and as such no two states have the same number and no two variables
have. -/
theorem numbers_fit [Text.Alphabet] (scanned : Token.scan l source = .ok tokens)
    (read : Node.ofTokens tokens = .ok nodes)
    (form : .list (.symbol "defprocess" :: arguments) ∈ nodes) :
    ∃ own, own <:+: tokens ∧ Node.Derives (.list (.symbol "defprocess" :: arguments)) own ∧
      own.length ≤ source.utf8ByteSize ∧
      (∀ leniency, (Building.process leniency ⟨"defprocess", arguments, 0⟩).outcome .new =
        (readProcess leniency ⟨"defprocess", arguments⟩,
          (run (edits arguments) Draft.empty).builder)) ∧
      (∀ name f d body, readName ⟨"defprocess", arguments⟩ = .ok (name, f) →
        readVariables f = .ok (d, body) → run (edits arguments) Draft.empty =
          (Statement.extendAll (body.map Statement.ofNode) d).draft) ∧
      ∀ history, history <+: edits arguments →
        let d := run history Draft.empty
        d.states.length ≤ own.length ∧ d.vars.length ≤ own.length ∧
        (source.utf8ByteSize < UInt32.size →
          d.nextState < UInt32.size ∧ d.vars.length < UInt32.size ∧
          ((d.states.map State.id).map UInt32.ofNat).Nodup ∧
          ((d.vars.map Variable.id).map UInt32.ofNat).Nodup) := by
  obtain ⟨own, derived, part⟩ := (Node.ofTokens_eq_ok_iff.mp read).2.exists_derives_of_mem form
  have bytes : own.length ≤ source.utf8ByteSize := by
    rw [← Text.byteLength_toList]
    exact Nat.le_trans part.length_le (Token.scan_eq_ok_iff.mp scanned).length_le
  refine ⟨own, part, derived, bytes, fun leniency => Building.outcome_process leniency arguments,
    fun _ _ _ _ => run_edits, fun history moment => ?_⟩
  obtain ⟨states, vars⟩ := length_run_le_of_derives derived moment
  generalize reached : run history Draft.empty = d at states vars
  refine ⟨by omega, by omega, fun small => ?_⟩
  have nextState : d.states.length + 1 < UInt32.size := by omega
  have nextVariable : d.vars.length < UInt32.size := by omega
  subst reached
  exact ⟨nextState, nextVariable, nodup_stateWords history (Nat.le_of_lt nextState),
    nodup_variableWords history (Nat.le_of_lt nextVariable)⟩

/-- The reading of a process with a jump to a label that is never placed, stopped when the jump has
been drawn. -/
theorem numbers_fit_dangling : ∃ tokens nodes history,
    Token.scan .strict "(defprocess (goto :a) :b)" = .ok tokens ∧
    Node.ofTokens tokens = .ok nodes ∧
    .list [.symbol "defprocess", .list [.symbol "goto", .keyword ":a"], .keyword ":b"] ∈ nodes ∧
    history <+: edits [.list [.symbol "goto", .keyword ":a"], .keyword ":b"] ∧
    history.length = 4 ∧ (run history Draft.empty).nextState = 3 ∧
    (run history Draft.empty).nextState < UInt32.size ∧
    (((run history Draft.empty).states.map State.id).map UInt32.ofNat).Nodup := by
  have scanned : Token.scan .strict "(defprocess (goto :a) :b)" = .ok
      [⟨.punctuation, 0, "("⟩, ⟨.word, 1, "defprocess"⟩, ⟨.punctuation, 12, "("⟩,
        ⟨.word, 13, "goto"⟩, ⟨.word, 18, ":a"⟩, ⟨.punctuation, 20, ")"⟩, ⟨.word, 22, ":b"⟩,
        ⟨.punctuation, 24, ")"⟩] := by
    decide +kernel
  have name : Node.Leaf ⟨.word, 1, "defprocess"⟩ (.symbol "defprocess") :=
    .symbol rfl (Text.int64?_eq_none_iff.mp (by decide)) (by decide)
  have goto : Node.Leaf ⟨.word, 13, "goto"⟩ (.symbol "goto") :=
    .symbol rfl (Text.int64?_eq_none_iff.mp (by decide)) (by decide)
  have target : Node.Leaf ⟨.word, 18, ":a"⟩ (.keyword ":a") :=
    .keyword rfl (Text.int64?_eq_none_iff.mp (by decide)) (by decide)
  have label : Node.Leaf ⟨.word, 22, ":b"⟩ (.keyword ":b") :=
    .keyword rfl (Text.int64?_eq_none_iff.mp (by decide)) (by decide)
  have jump : Node.Derives (.list [.symbol "goto", .keyword ":a"])
      [⟨.punctuation, 12, "("⟩, ⟨.word, 13, "goto"⟩, ⟨.word, 18, ":a"⟩, ⟨.punctuation, 20, ")"⟩] :=
    .list (by decide) (.cons (.leaf goto) (Node.derivesAll_singleton (.leaf target))) (by decide)
  have form : Node.Derives
      (.list [.symbol "defprocess", .list [.symbol "goto", .keyword ":a"], .keyword ":b"])
      [⟨.punctuation, 0, "("⟩, ⟨.word, 1, "defprocess"⟩, ⟨.punctuation, 12, "("⟩,
        ⟨.word, 13, "goto"⟩, ⟨.word, 18, ":a"⟩, ⟨.punctuation, 20, ")"⟩, ⟨.word, 22, ":b"⟩,
        ⟨.punctuation, 24, ")"⟩] :=
    .list (by decide) (.cons (.leaf name) (.cons jump (Node.derivesAll_singleton (.leaf label))))
      (by decide)
  have read := Node.ofTokens_eq_ok_iff.mpr ⟨List.cons_ne_nil _ _, Node.derivesAll_singleton form⟩
  obtain ⟨own, -, -, -, -, -, moments⟩ := numbers_fit scanned read (List.mem_singleton_self _)
  have moment := List.take_prefix 4 (edits [.list [.symbol "goto", .keyword ":a"], .keyword ":b"])
  obtain ⟨nextState, -, states, -⟩ := (moments _ moment).2.2 (by decide)
  exact ⟨_, _, _, scanned, read, List.mem_singleton_self _, moment, rfl, rfl, nextState, states⟩

end Declaration

end ProtocolGraph
