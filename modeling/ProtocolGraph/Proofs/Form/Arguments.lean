import ProtocolGraph.Form.Call
import ProtocolGraph.Proofs.Outcome

/-!
# Arguments are read in order

The arguments of a call are read from left to right: a step takes some of those that stand at the
position, and moves the position behind them.

* `Form.Turn`: what a step answers at a position and where it leaves the position, in terms of the
  arguments alone. `Call.exists_turn`: where the position is not beyond the end, every step is such
  a turn, so that it stays in range and `remaining` has an outcome.
* `Call.handed`, `Call.skipped`: the nodes that a step hands out, and the keyword that it passes
  over in front of them. `Call.taken` puts together what some steps take.
* `Call.unread_named` and its kin: reading the form that is unread is reading in place.
  `Form.Walk.step_unread` says so of the steps of a walk.
* **`Call.arguments_read_in_order`**: whichever steps are made, and whether they fail or not, the
  position stays in range and never goes back, and what has been taken are the arguments in front of
  it.
-/

namespace ProtocolGraph

/-- What a step does in a form that has been read up to the position `k`: what it answers, and the
position after it. -/
inductive Form.Turn (f : Form) (k : Nat) : Step → Except Cause Answer → Nat → Prop
  | introduced {keyword reading n} (marker : f.arguments[k]? = some (.keyword keyword))
      (value : f.arguments[k + 1]? = some n) :
      Turn f k (.named keyword reading) (reading.read n) (k + 2)
  | plain {keyword reading n} (value : f.arguments[k]? = some n) (other : n.kind ≠ .keyword) :
      Turn f k (.named keyword reading) (reading.read n) (k + 1)
  | noParameter {keyword reading} (atEnd : k = f.arguments.length) :
      Turn f k (.named keyword reading) (.error (.argument .missingParameter)) k
  | wrongKeyword {keyword reading found} (marker : f.arguments[k]? = some (.keyword found))
      (other : found ≠ keyword) :
      Turn f k (.named keyword reading) (.error (.argument (.wrongKeyword keyword found))) k
  | noValue {keyword reading} (marker : f.arguments[k]? = some (.keyword keyword))
      (last : k + 1 = f.arguments.length) :
      Turn f k (.named keyword reading) (.error (.argument (.missingValue keyword))) k
  | positional {reading n} (value : f.arguments[k]? = some n) :
      Turn f k (.positional reading) (reading.read n) (k + 1)
  | noArgument {reading} (atEnd : k = f.arguments.length) :
      Turn f k (.positional reading) (.error (.argument .endOfArguments)) k
  | optional {n} (value : f.arguments[k]? = some n) :
      Turn f k .optional (.ok (.node (some n))) (k + 1)
  | noOptional (atEnd : k = f.arguments.length) : Turn f k .optional (.ok (.node none)) k
  | peek : Turn f k .peek (.ok (.node f.arguments[k]?)) k
  | skipped {keyword} (marker : f.arguments[k]? = some (.keyword keyword)) :
      Turn f k (.skipKeyword keyword) (.ok (.flag true)) (k + 1)
  | kept {keyword} (other : f.arguments[k]? ≠ some (.keyword keyword)) :
      Turn f k (.skipKeyword keyword) (.ok (.flag false)) k
  | remaining : Turn f k .remaining (.ok (.nodes (f.arguments.drop k))) f.arguments.length
  | finished (atEnd : k = f.arguments.length) : Turn f k .finish (.ok .done) k
  | unfinished (left : k < f.arguments.length) :
      Turn f k .finish (.error (.argument (.trailing (f.arguments.length - k)))) k
  | name : Turn f k .name (.ok (.text f.name)) k
  | outermost : Turn f k .leave (.ok (.flag false)) k

/-- A turn goes forward, and not beyond the end. -/
theorem Form.Turn.mono {f : Form} {k k' : Nat} {step : Step} {answer : Except Cause Answer}
    (turn : Turn f k step answer k') (inRange : k ≤ f.arguments.length) :
    k ≤ k' ∧ k' ≤ f.arguments.length := by
  cases turn with
  | introduced _ value | plain value | positional value | optional value | skipped value =>
    have := (List.getElem?_eq_some_iff.mp value).1
    omega
  | _ => omega

namespace Call

open Form (Fault Reading Answer Step Turn Walk)

/-! ## What a lookup comes to -/

variable {c d e : Call} {n : Node} {keyword : String} {reading : Reading} {step : Step}
  {answer : Except Cause Answer}

theorem peek_eq_none_iff : c.peek = none ↔ c.arguments.length ≤ c.position :=
  List.getElem?_eq_none_iff

theorem lt_of_peek_eq_some (h : c.peek = some n) : c.position < c.arguments.length :=
  (List.getElem?_eq_some_iff.mp h).1

theorem positional_cases (c : Call) :
    c.peek = none ∧ c.positional = (.error .endOfArguments, c) ∨
    ∃ n, c.peek = some n ∧ c.positional = (.ok n, c.advance 1) := by
  unfold positional
  cases c.peek with
  | none => exact Or.inl ⟨rfl, rfl⟩
  | some n => exact Or.inr ⟨n, rfl, rfl⟩

/-- A keyword is passed over exactly if it comes next. -/
theorem skipKeyword_cases (keyword : String) (c : Call) :
    c.peek = some (.keyword keyword) ∧ c.skipKeyword keyword = (true, c.advance 1) ∨
    c.peek ≠ some (.keyword keyword) ∧ c.skipKeyword keyword = (false, c) := by
  unfold skipKeyword
  split
  · rename_i found next
    by_cases h : found = keyword <;> simp [next, h]
  · rename_i different
    exact Or.inr ⟨different keyword, rfl⟩

/-- What comes of looking up an argument that a keyword may introduce. -/
inductive Lookup (c : Call) (keyword : String) : Except Fault Node × Call → Prop
  | nothing (next : c.peek = none) : Lookup c keyword (.error .missingParameter, c)
  | other {found} (next : c.peek = some (.keyword found)) (different : found ≠ keyword) :
      Lookup c keyword (.error (.wrongKeyword keyword found), c)
  | alone (next : c.peek = some (.keyword keyword))
      (last : c.arguments[c.position + 1]? = none) :
      Lookup c keyword (.error (.missingValue keyword), c)
  | introduced {value} (next : c.peek = some (.keyword keyword))
      (behind : c.arguments[c.position + 1]? = some value) :
      Lookup c keyword (.ok value, c.advance 2)
  | plain {value} (next : c.peek = some value) (unintroduced : value.kind ≠ .keyword) :
      Lookup c keyword (.ok value, c.advance 1)

theorem lookup_named (keyword : String) (c : Call) : Lookup c keyword (c.named keyword) := by
  unfold named
  split
  · exact .nothing ‹_›
  · rename_i found next
    split
    · exact .other next ‹_›
    · rename_i same
      obtain rfl := not_not.mp same
      split
      · exact .introduced next ‹_›
      · exact .alone next ‹_›
  · rename_i n different next
    refine .plain next fun kind => ?_
    cases n with
    | keyword found => exact different found rfl
    | _ => cases kind

theorem finish_of_le (h : c.arguments.length ≤ c.position) : c.finish = .ok () := by
  rw [finish, Nat.sub_eq_zero_of_le h]
  rfl

theorem finish_of_lt (h : c.position < c.arguments.length) :
    c.finish = .error (.trailing (c.arguments.length - c.position)) := by
  unfold finish
  split
  · omega
  · rfl

/-! ## One step -/

/-- **Every step has an outcome** where the position is not beyond the end, and is a turn there. -/
theorem exists_turn (inRange : c.position ≤ c.arguments.length) (step : Step) :
    ∃ answer d, c.step step = some (answer, d) ∧ d.form = c.form ∧
      Turn c.form c.position step answer d.position := by
  have atEnd : c.peek = none → c.position = c.arguments.length :=
    fun none => Nat.le_antisymm inRange (peek_eq_none_iff.mp none)
  cases step with
  | named keyword reading =>
    refine ⟨_, _, rfl, ?_⟩
    have lookup := lookup_named keyword c
    generalize c.named keyword = found at lookup ⊢
    cases lookup with
    | nothing next => exact ⟨rfl, .noParameter (atEnd next)⟩
    | other next different => exact ⟨rfl, .wrongKeyword next different⟩
    | alone next last =>
      have behind := List.getElem?_eq_none_iff.mp last
      have here := lt_of_peek_eq_some next
      exact ⟨rfl, .noValue next (Nat.le_antisymm here behind)⟩
    | introduced next behind => exact ⟨rfl, .introduced next behind⟩
    | plain next unintroduced => exact ⟨rfl, .plain next unintroduced⟩
  | positional reading =>
    refine ⟨_, _, rfl, ?_⟩
    rcases positional_cases c with ⟨none, same⟩ | ⟨n, next, same⟩ <;> rw [same]
    · exact ⟨rfl, .noArgument (atEnd none)⟩
    · exact ⟨rfl, .positional next⟩
  | optional =>
    refine ⟨_, _, rfl, ?_⟩
    rw [optional]
    rcases positional_cases c with ⟨none, same⟩ | ⟨n, next, same⟩ <;> rw [same]
    · exact ⟨rfl, .noOptional (atEnd none)⟩
    · exact ⟨rfl, .optional next⟩
  | peek => exact ⟨_, _, rfl, rfl, .peek⟩
  | skipKeyword keyword =>
    refine ⟨_, _, rfl, ?_⟩
    rcases skipKeyword_cases keyword c with ⟨next, same⟩ | ⟨other, same⟩ <;> rw [same]
    · exact ⟨rfl, .skipped next⟩
    · exact ⟨rfl, .kept other⟩
  | remaining =>
    refine ⟨.ok (.nodes (c.arguments.drop c.position)), { c with position := c.arguments.length },
      ?_, rfl, .remaining⟩
    rw [Call.step, remaining, if_pos inRange]
    rfl
  | finish =>
    refine ⟨_, _, rfl, rfl, ?_⟩
    rcases Nat.eq_or_lt_of_le inRange with whole | left
    · rw [finish_of_le (Nat.le_of_eq whole.symm)]
      exact .finished whole
    · rw [finish_of_lt left]
      exact .unfinished left
  | name => exact ⟨_, _, rfl, rfl, .name⟩
  | leave => exact ⟨_, _, rfl, rfl, .outermost⟩

/-! ## What steps take -/

/-- The nodes that a step hands out. -/
def handed (c : Call) : Step → List Node
  | .named keyword _ => (c.named keyword).1.toOption.toList
  | .positional _ => c.positional.1.toOption.toList
  | .optional => c.optional.1.toList
  | .remaining => (c.remaining.map Prod.fst).getD []
  | _ => []

/-- The keyword that a step passes over: the one that introduces the node that is handed out, or the
one that the step is about. -/
def skipped (c : Call) : Step → List Node
  | .named keyword _ =>
    match (c.named keyword).1, c.peek with
    | .ok _, some (.keyword introducing) => [.keyword introducing]
    | _, _ => []
  | .skipKeyword keyword => if (c.skipKeyword keyword).1 then [.keyword keyword] else []
  | _ => []

/-- All that these steps take of the arguments, in order. -/
def taken : List Step → Call → List Node
  | [], _ => []
  | step :: rest, c =>
    c.skipped step ++ c.handed step ++
      match c.step step with
      | none => []
      | some (_, d) => taken rest d

theorem take_append_getElem {ns : List Node} {i : Nat} (h : ns[i]? = some n) :
    ns.take i ++ [n] = ns.take (i + 1) := by
  rw [List.take_add_one, h]
  rfl

/-- **What a step takes** are the arguments from where the position was to where it is. -/
theorem take_append_of_step (h : c.step step = some (answer, d)) :
    c.arguments.take c.position ++ (c.skipped step ++ c.handed step) =
      c.arguments.take d.position := by
  cases step with
  | named keyword reading =>
    simp only [skipped, handed]
    have lookup := lookup_named keyword c
    obtain ⟨-, rfl⟩ := Prod.mk.inj (Option.some.inj h)
    generalize c.named keyword = found at lookup ⊢
    cases lookup with
    | nothing | other | alone => exact List.append_nil _
    | introduced next behind =>
      rw [next]
      show _ ++ ([_] ++ [_]) = c.arguments.take (c.position + 1 + 1)
      rw [← List.append_assoc, take_append_getElem next, take_append_getElem behind]
    | @plain value next unintroduced =>
      rw [next]
      cases value with
      | keyword => exact (unintroduced rfl).elim
      | _ => exact take_append_getElem next
  | positional reading =>
    obtain ⟨-, rfl⟩ := Prod.mk.inj (Option.some.inj h)
    simp only [skipped, handed]
    rcases positional_cases c with ⟨-, same⟩ | ⟨n, next, same⟩ <;> rw [same]
    · exact List.append_nil _
    · exact take_append_getElem next
  | optional =>
    obtain ⟨-, rfl⟩ := Prod.mk.inj (Option.some.inj h)
    simp only [skipped, handed, optional]
    rcases positional_cases c with ⟨-, same⟩ | ⟨n, next, same⟩ <;> rw [same]
    · exact List.append_nil _
    · exact take_append_getElem next
  | skipKeyword keyword =>
    obtain ⟨-, rfl⟩ := Prod.mk.inj (Option.some.inj h)
    simp only [skipped, handed]
    rcases skipKeyword_cases keyword c with ⟨next, same⟩ | ⟨-, same⟩ <;> rw [same]
    · exact take_append_getElem next
    · exact List.append_nil _
  | remaining =>
    obtain ⟨⟨rest, e⟩, cut, heq⟩ := Option.map_eq_some_iff.mp h
    obtain ⟨-, rfl⟩ := Prod.mk.inj heq
    simp only [skipped, handed, cut]
    unfold remaining at cut
    split at cut
    · cases cut
      show _ ++ c.arguments.drop c.position = c.arguments.take c.arguments.length
      rw [List.take_append_drop, List.take_length]
    · cases cut
  | peek | finish | name | leave =>
    obtain ⟨-, rfl⟩ := Prod.mk.inj (Option.some.inj h)
    exact List.append_nil _

/-! ## Runs -/

/-- **Any steps have outcomes** where the position is not beyond the end. They move it forward, not
beyond the end, and over what they take. -/
theorem exists_run (steps : List Step) (inRange : c.position ≤ c.arguments.length) :
    ∃ d, c.run steps = some d ∧ d.form = c.form ∧ c.position ≤ d.position ∧
      d.position ≤ d.arguments.length ∧
      c.arguments.take c.position ++ taken steps c = c.arguments.take d.position := by
  induction steps generalizing c with
  | nil => exact ⟨c, rfl, rfl, Nat.le_refl _, inRange, List.append_nil _⟩
  | cons step rest ih =>
    obtain ⟨answer, d, stepped, same, turn⟩ := exists_turn inRange step
    have arguments : d.arguments = c.arguments := congrArg Form.arguments same
    obtain ⟨forward, within⟩ := turn.mono inRange
    obtain ⟨e, ran, same', forward', within', all⟩ := ih (same ▸ within)
    refine ⟨e, ?_, same'.trans same, Nat.le_trans forward forward', within', ?_⟩
    · rw [run, stepped]
      exact ran
    · rw [taken, stepped, ← List.append_assoc, take_append_of_step stepped, ← arguments]
      exact all

/-! ## What is unread -/

theorem unread_of_peek_eq_none (h : c.peek = none) : c.unread = ⟨c.name, []⟩ := by
  rw [unread, List.drop_eq_nil_of_le (peek_eq_none_iff.mp h)]

theorem unread_of_peek_eq_some (h : c.peek = some n) :
    c.unread = ⟨c.name, n :: c.arguments.drop (c.position + 1)⟩ := by
  obtain ⟨inRange, rfl⟩ := List.getElem?_eq_some_iff.mp h
  rw [unread, List.drop_eq_getElem_cons inRange]

theorem ofNodes_eq_ok_iff {elements : List Node} : ofNodes elements = .ok c ↔
    elements = .symbol c.name :: c.arguments ∧ c.position = 0 := by
  obtain ⟨name, arguments, position⟩ := c
  cases elements with
  | nil => simp [ofNodes]
  | cons head rest =>
    cases head <;> simp [ofNodes, Except.map, Node.expectSymbol, and_assoc, eq_comm]

theorem map_unread_ofNodes (elements : List Node) :
    (ofNodes elements).map unread = Form.ofNodes elements := by
  cases elements with
  | nil => rfl
  | cons head arguments => cases head <;> rfl

/-- The outcome of a lookup in place, as one of a lookup in what is unread. -/
def unreadResult (found : Except Fault Node × Call) : Except Fault (Node × Form) :=
  found.1.map (·, found.2.unread)

theorem unread_named (keyword : String) (c : Call) :
    c.unread.named keyword = unreadResult (c.named keyword) := by
  have lookup := lookup_named keyword c
  generalize c.named keyword = found at lookup ⊢
  cases lookup with
  | nothing next =>
    rw [unread_of_peek_eq_none next]
    rfl
  | other next different =>
    rw [unread_of_peek_eq_some next]
    exact if_pos different
  | alone next last =>
    have behind := List.getElem?_eq_none_iff.mp last
    rw [unread_of_peek_eq_some next, List.drop_eq_nil_of_le behind]
    exact if_neg (not_not.mpr rfl)
  | introduced next behind =>
    obtain ⟨inRange, rfl⟩ := List.getElem?_eq_some_iff.mp behind
    rw [unread_of_peek_eq_some next, List.drop_eq_getElem_cons inRange]
    exact if_neg (not_not.mpr rfl)
  | @plain value next unintroduced =>
    rw [unread_of_peek_eq_some next]
    cases value with
    | keyword => exact (unintroduced rfl).elim
    | _ => rfl

theorem unread_positional (c : Call) : c.unread.positional = unreadResult c.positional := by
  rcases positional_cases c with ⟨next, same⟩ | ⟨n, next, same⟩ <;> rw [same]
  · rw [unread_of_peek_eq_none next]
    rfl
  · rw [unread_of_peek_eq_some next]
    rfl

theorem unread_optional (c : Call) : c.unread.optional = (c.optional.1, c.optional.2.unread) := by
  rw [optional]
  rcases positional_cases c with ⟨next, same⟩ | ⟨n, next, same⟩ <;> rw [same]
  · rw [unread_of_peek_eq_none next]
    rfl
  · rw [unread_of_peek_eq_some next]
    rfl

theorem head?_unread (c : Call) : c.unread.arguments.head? = c.peek :=
  List.head?_drop

theorem unread_skipKeyword (keyword : String) (c : Call) : c.unread.skipKeyword keyword =
    ((c.skipKeyword keyword).1, (c.skipKeyword keyword).2.unread) := by
  rcases skipKeyword_cases keyword c with ⟨next, same⟩ | ⟨other, same⟩ <;> rw [same]
  · rw [unread_of_peek_eq_some next]
    exact if_pos rfl
  · rw [← head?_unread] at other
    unfold Form.skipKeyword
    split
    · rename_i found rest heq
      refine if_neg ?_
      rintro rfl
      exact other (by rw [heq]; rfl)
    · rfl

theorem unread_isExhausted (c : Call) : c.unread.isExhausted = c.isExhausted := by
  rw [Bool.eq_iff_iff, isExhausted, decide_eq_true_iff, Form.isExhausted, List.isEmpty_iff]
  exact List.drop_eq_nil_iff

theorem unread_finish (c : Call) : c.unread.finish = c.finish := by
  rewrite [Form.finish, finish, unread, List.length_drop]
  rfl

/-! ## Walks -/

/-- Making something of what is looked up is the same in place and in what is unread. -/
theorem walk_take_unread {found : Except Fault Node × Call} (c : Call) (outer : List Form)
    (reading : Reading) (kept : ∀ fault, found.1 = .error fault → found.2 = c) :
    (Walk.take ⟨c.unread, outer⟩ reading (unreadResult found)).1 = (take reading found).1 ∧
      ((Walk.take ⟨c.unread, outer⟩ reading (unreadResult found)).2 =
          ⟨(take reading found).2.unread, outer⟩ ∨
        ∃ inner, (take reading found).1 = .ok (.form inner) ∧
          (Walk.take ⟨c.unread, outer⟩ reading (unreadResult found)).2 =
            ⟨inner, (take reading found).2.unread :: outer⟩) := by
  obtain ⟨result, d⟩ := found
  cases result with
  | error fault =>
    obtain rfl : d = c := kept fault rfl
    exact ⟨rfl, Or.inl rfl⟩
  | ok n =>
    have found : unreadResult (.ok n, d) = .ok (n, d.unread) := rfl
    simp only [found, Walk.take, take]
    split
    · rename_i inner entered
      exact ⟨entered.symm, Or.inr ⟨inner, entered, rfl⟩⟩
    · exact ⟨rfl, Or.inl rfl⟩

/-- **A step of a walk** is a step in place in its innermost form, unless it leaves that form. -/
theorem walk_step_unread (inRange : c.position ≤ c.arguments.length) (outer : List Form)
    (stays : step ≠ .leave) : ∃ d, c.step step = some ((Walk.step ⟨c.unread, outer⟩ step).1, d) ∧
      ((Walk.step ⟨c.unread, outer⟩ step).2 = ⟨d.unread, outer⟩ ∨
        ∃ inner, (Walk.step ⟨c.unread, outer⟩ step).1 = .ok (.form inner) ∧
          (Walk.step ⟨c.unread, outer⟩ step).2 = ⟨inner, d.unread :: outer⟩) := by
  cases step with
  | leave => exact (stays rfl).elim
  | named keyword reading =>
    simp only [Walk.step, unread_named]
    have kept : ∀ fault, (c.named keyword).1 = .error fault → (c.named keyword).2 = c := by
      have lookup := lookup_named keyword c
      generalize c.named keyword = found at lookup ⊢
      cases lookup with
      | nothing | other | alone => exact fun _ _ => rfl
      | introduced | plain => exact nofun
    obtain ⟨same, left⟩ := walk_take_unread c outer reading kept
    rw [same]
    exact ⟨_, rfl, left⟩
  | positional reading =>
    simp only [Walk.step, unread_positional]
    have kept : ∀ fault, c.positional.1 = .error fault → c.positional.2 = c := by
      rcases positional_cases c with ⟨-, same⟩ | ⟨n, -, same⟩ <;> rw [same]
      · exact fun _ _ => rfl
      · exact nofun
    obtain ⟨same, left⟩ := walk_take_unread c outer reading kept
    rw [same]
    exact ⟨_, rfl, left⟩
  | optional =>
    simp only [Walk.step, unread_optional]
    exact ⟨_, rfl, Or.inl rfl⟩
  | peek =>
    simp only [Walk.step, head?_unread]
    exact ⟨_, rfl, Or.inl rfl⟩
  | skipKeyword keyword =>
    simp only [Walk.step, unread_skipKeyword]
    exact ⟨_, rfl, Or.inl rfl⟩
  | remaining =>
    refine ⟨{ c with position := c.arguments.length }, ?_, Or.inl ?_⟩
    · rw [Call.step, remaining, if_pos inRange]
      rfl
    · show Walk.mk ⟨c.name, []⟩ outer = ⟨⟨c.name, c.arguments.drop c.arguments.length⟩, outer⟩
      rw [List.drop_length]
  | finish =>
    simp only [Walk.step, unread_finish]
    exact ⟨_, rfl, Or.inl rfl⟩
  | name => exact ⟨_, rfl, Or.inl rfl⟩

/-- The call has been read off a list of nodes, and then some steps have been made in it. -/
def Begun (d : Call) : Prop :=
  ∃ elements c steps, ofNodes elements = .ok c ∧ c.run steps = some d

theorem run_concat (steps : List Step) (step : Step) (c : Call) :
    c.run (steps ++ [step]) = (c.run steps).bind fun d => (d.step step).map Prod.snd := by
  induction steps generalizing c with
  | nil =>
    rw [List.nil_append, run, run, Option.bind_some]
    cases c.step step <;> rfl
  | cons first rest ih =>
    rw [List.cons_append, run, run, Option.bind_assoc]
    exact congrArg _ (funext fun r => ih r.2)

theorem Begun.of_step (h : Begun d) (stepped : d.step step = some (answer, e)) : Begun e := by
  obtain ⟨elements, c, steps, read, ran⟩ := h
  refine ⟨elements, c, steps ++ [step], read, ?_⟩
  rw [run_concat, ran, Option.bind_some, stepped]
  rfl

theorem Begun.inRange (h : Begun d) : d.position ≤ d.arguments.length := by
  obtain ⟨elements, c, steps, read, ran⟩ := h
  have start : c.position ≤ c.arguments.length :=
    (ofNodes_eq_ok_iff.mp read).2 ▸ Nat.zero_le _
  obtain ⟨e, ran', -, -, within, -⟩ := exists_run steps start
  cases ran.symm.trans ran'
  exact within

/-- A form that is made of a node is the whole of a call. -/
theorem begun_of_read {inner : Form} (read : reading.read n = .ok (.form inner)) :
    ∃ d, Begun d ∧ inner = d.unread := by
  cases reading with
  | form =>
    obtain ⟨f, read, heq⟩ := Outcome.map_eq_ok_iff.mp read
    obtain ⟨elements, -, spelt⟩ := Outcome.bind_eq_ok_iff.mp (Outcome.mapError_eq_ok_iff.mp read)
    cases heq
    rw [← map_unread_ofNodes] at spelt
    obtain ⟨d, isCall, rfl⟩ := Outcome.map_eq_ok_iff.mp spelt
    exact ⟨d, ⟨elements, d, [], isCall, rfl⟩, rfl⟩
  | node => cases read
  | string | symbol | keyword | list | expression =>
    obtain ⟨_, -, ⟨⟩⟩ := Outcome.map_eq_ok_iff.mp read

/-- Only a step that looks up a node and makes something of it can answer a form. -/
theorem begun_of_step {inner : Form} (inRange : c.position ≤ c.arguments.length)
    (entered : c.step step = some (.ok (.form inner), d)) : ∃ d, Begun d ∧ inner = d.unread := by
  obtain ⟨answer, e, stepped, -, turn⟩ := exists_turn inRange step
  cases entered.symm.trans stepped
  generalize same : (Except.ok (Answer.form inner) : Except Cause Answer) = answer at turn
  generalize d.position = k at turn
  cases turn with
  | introduced | plain | positional => exact begun_of_read same.symm
  | _ => cases same

end Call

namespace Form.Walk

/-- All forms of the walk, innermost first. -/
def forms (w : Walk) : List Form :=
  w.inner :: w.outer

/-- The walk after these steps. -/
def run (steps : List Step) (w : Walk) : Walk :=
  steps.foldl (fun w step => (w.step step).2) w

/-- Each form of the walk is what is unread of a call. -/
def InPlace (w : Walk) : Prop :=
  ∀ g ∈ w.forms, ∃ d : Call, d.Begun ∧ g = d.unread

theorem InPlace.step {w : Walk} (h : w.InPlace) (step : Step) : (w.step step).2.InPlace := by
  obtain ⟨inner, outer⟩ := w
  obtain ⟨⟨c, begun, rfl⟩, around⟩ := List.forall_mem_cons.mp h
  by_cases leaves : step = .leave
  · subst leaves
    cases outer with
    | nil => exact h
    | cons f outer => exact around
  · obtain ⟨d, stepped, same | ⟨inner, entered, same⟩⟩ :=
      Call.walk_step_unread begun.inRange outer leaves
    · rw [same]
      exact List.forall_mem_cons.mpr ⟨⟨d, begun.of_step stepped, rfl⟩, around⟩
    · rw [same]
      rw [entered] at stepped
      exact List.forall_mem_cons.mpr ⟨Call.begun_of_step begun.inRange stepped,
        List.forall_mem_cons.mpr ⟨⟨d, begun.of_step stepped, rfl⟩, around⟩⟩

theorem InPlace.run (steps : List Step) {w : Walk} (h : w.InPlace) : (run steps w).InPlace := by
  induction steps generalizing w with
  | nil => exact h
  | cons step rest ih => exact ih (h.step step)

end Form.Walk

namespace Call

open Form (Step Turn Walk)

/-- **Arguments are read in order**, each of them once. A list of nodes that is a call starts with
its name, the others are its arguments, and the position is in front of them. Any steps in it have
outcomes, so that what `remaining` takes is in range. Whether they fail or not, they leave the
arguments as they are and the position not beyond the end, and the arguments in front of it are what
has been taken: the nodes handed out and the keywords passed over, in order. A step then answers
what stands at the position, and moves it accordingly: not at all if nothing is found there, and
over what is found also if the answer is that it has the wrong kind; `finish` fails exactly if
arguments are left, and tells how many. The position never goes back. A walk that enters arguments
and leaves them again reads each of its forms in this way. -/
theorem arguments_read_in_order {elements : List Node} {c : Call}
    (isCall : ofNodes elements = .ok c) :
    elements = .symbol c.name :: c.arguments ∧ c.position = 0 ∧
    (∀ steps, ∃ d, c.run steps = some d ∧ d.form = c.form ∧
      d.position ≤ c.arguments.length ∧ taken steps c = c.arguments.take d.position ∧
      (∀ step, ∃ answer e, d.step step = some (answer, e) ∧ e.form = c.form ∧
        Turn c.form d.position step answer e.position) ∧
      ∀ more e, d.run more = some e → d.position ≤ e.position) ∧
    Form.ofNodes elements = .ok c.unread ∧
    ∀ steps, (∀ g ∈ (Walk.run steps ⟨c.unread, []⟩).forms, ∃ d, Begun d ∧ g = d.unread) ∧
      ∀ step d, Begun d → (Walk.run steps ⟨c.unread, []⟩).inner = d.unread → step ≠ .leave →
        ∃ e, d.step step = some (((Walk.run steps ⟨c.unread, []⟩).step step).1, e) := by
  obtain ⟨spelt, start⟩ := ofNodes_eq_ok_iff.mp isCall
  have inRange : c.position ≤ c.arguments.length := start ▸ Nat.zero_le _
  refine ⟨spelt, start, fun steps => ?_, ?_, fun steps => ⟨?_, fun step d begun here stays => ?_⟩⟩
  · obtain ⟨d, ran, same, -, within, all⟩ := exists_run steps inRange
    have arguments : d.arguments = c.arguments := congrArg Form.arguments same
    rw [start] at all
    refine ⟨d, ran, same, arguments ▸ within, all, fun step => ?_, fun more e later => ?_⟩
    · obtain ⟨answer, e, stepped, same', turn⟩ := exists_turn within step
      exact ⟨answer, e, stepped, same'.trans same, same ▸ turn⟩
    · obtain ⟨e', ran', -, forward, -⟩ := exists_run more within
      cases later.symm.trans ran'
      exact forward
  · rw [← map_unread_ofNodes, isCall]
    rfl
  · have begun : Begun c := ⟨elements, c, [], isCall, rfl⟩
    exact Walk.InPlace.run steps (List.forall_mem_singleton.mpr ⟨c, begun, rfl⟩)
  · generalize Walk.run steps ⟨c.unread, []⟩ = w at here ⊢
    obtain ⟨inner, outer⟩ := w
    obtain rfl : inner = d.unread := here
    obtain ⟨e, stepped, -⟩ := walk_step_unread begun.inRange outer stays
    exact ⟨e, stepped⟩

/-- A keyword that is not there, an argument of the wrong kind, a keyword that does not come next,
an argument of the right kind, and a keyword without a value. -/
def stumbling : List Step :=
  [.named ":b" .node, .named ":a" .symbol, .skipKeyword ":b", .positional .string,
    .named ":b" .node]

theorem arguments_read_in_order_stumbling : ∃ c d,
    ofNodes [.symbol "f", .keyword ":a", .int 1, .string "\"s\"", .keyword ":b"] = .ok c ∧
    c.run stumbling = some d ∧ d.position = 3 ∧
    taken stumbling c = [.keyword ":a", .int 1, .string "\"s\""] ∧
    d.step .finish = some (.error (.argument (.trailing 1)), d) ∧
    ∃ e, d.step .remaining = some (.ok (.nodes [.keyword ":b"]), e) ∧ e.position = 4 := by
  have isCall : ofNodes [.symbol "f", .keyword ":a", .int 1, .string "\"s\"", .keyword ":b"] =
      .ok ⟨"f", [.keyword ":a", .int 1, .string "\"s\"", .keyword ":b"], 0⟩ := rfl
  obtain ⟨d, ran, -, -, all, turns, -⟩ := (arguments_read_in_order isCall).2.2.1 stumbling
  cases ran
  obtain ⟨answer, e, cut, -, turn⟩ := turns .remaining
  refine ⟨_, _, isCall, rfl, rfl, all, rfl, e, ?_⟩
  generalize e.position = k at turn ⊢
  cases turn with
  | remaining => exact ⟨cut, rfl⟩

end Call

end ProtocolGraph
