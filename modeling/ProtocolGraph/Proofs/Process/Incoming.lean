import ProtocolGraph.Proofs.Declaration.Graph

/-!
# What enters a state

Named states are entered silently, and nothing else is silent. A state without a name is entered
when it is created, from an earlier state, and never again. So it is entered once, or twice if two
alternatives of a branch meet there.

* `Entered ts`: the two shapes that the transitions into a state without a name can have.
* `Structured.of_move`: every move keeps the transitions of a draft `Structured`, so every body does
  (`structured_extendAll`).
* `Process.Walk`: transitions one after the other. A walk that enters no named state climbs
  (`Walk.le_of_forward`), and walking back from a state without a name ends at a named one.
* **`Model.incoming_structured`**: all this for every process of a model; hence every cycle passes
  through a named state.
-/

namespace ProtocolGraph

/-- A state is entered once, or at the ends of two alternatives of a branch. -/
inductive Entered : List Transition → Prop
  /-- One transition enters it. -/
  | once (t) : Entered [t]
  /-- The alternatives end in different states. -/
  | joined {t u} (apart : t.source ≠ u.source) (first : t.label = .leaving "ifend")
      (second : u.label = .leaving "elseend") : Entered [t, u]

theorem Entered.ne_nil {ts : List Transition} (h : Entered ts) : ts ≠ [] := by
  cases h <;> exact List.cons_ne_nil _ _

/-- Something is said on the transition, or it has a condition. -/
def Label.Speaks (label : Label) : Prop :=
  label.action ≠ none ∨ label.guard ≠ none

namespace Draft

/-- The transitions that enter a state, in their order. -/
def incoming (d : Draft) (x : StateId) : List Transition :=
  d.transitions.filter (·.target == x)

/-- The transitions enter states as they should. -/
structure Structured (d : Draft) : Prop where
  silent : ∀ t ∈ d.transitions, ∀ n, ⟨t.target, some n⟩ ∈ d.states → t.label = {}
  forward : ∀ t ∈ d.transitions, ⟨t.target, none⟩ ∈ d.states → t.label.Speaks ∧ t.source < t.target
  entered : ∀ x, ⟨x, none⟩ ∈ d.states → Entered (d.incoming x)

variable {d e : Draft} {x : StateId} {n : String}

theorem incoming_of_append {ts : List Transition} (h : e.transitions = d.transitions ++ ts) :
    e.incoming x = d.incoming x ++ ts.filter (·.target == x) := by
  unfold incoming
  rw [h, List.filter_append]

theorem structured_empty : empty.Structured where
  silent := fun _ ht => by cases ht
  forward := fun _ ht => by cases ht
  entered := fun x hx => by
    cases List.mem_singleton.mp hx

namespace Structured

/-- A new state without a name is entered from fixed states. -/
theorem enter_new (h : d.Tidy) (hd : d.Structured) {ts : List Transition}
    (states : e.states = d.states ++ [⟨d.nextState, none⟩])
    (transitions : e.transitions = d.transitions ++ ts) (entered : Entered ts)
    (into : ∀ t ∈ ts, t.target = d.nextState) (fixed : ∀ t ∈ ts, d.Fixed t.source)
    (speaks : ∀ t ∈ ts, t.label.Speaks) : e.Structured := by
  have old : ∀ t ∈ d.transitions, t.target ≠ d.nextState := fun t ht => by
    obtain ⟨s, hs, he⟩ := h.targets t ht
    exact he ▸ h.sound.ne_nextState hs
  refine ⟨fun t ht n hn => ?_, fun t ht hn => ?_, fun x hx => ?_⟩
  · rw [states, List.mem_append, List.mem_singleton] at hn
    have hn : ⟨t.target, some n⟩ ∈ d.states :=
      hn.resolve_right fun he => Option.some_ne_none n (State.mk.inj he).2
    rw [transitions, List.mem_append] at ht
    rcases ht with ht | ht
    · exact hd.silent t ht n hn
    · exact absurd (into t ht) (h.sound.ne_nextState hn)
  · rw [transitions, List.mem_append] at ht
    rcases ht with ht | ht
    · rw [states, List.mem_append, List.mem_singleton] at hn
      exact hd.forward t ht (hn.resolve_right fun he => old t ht (congrArg State.id he))
    · obtain ⟨name, hs, -⟩ := fixed t ht
      exact ⟨speaks t ht, into t ht ▸ h.sound.lt_nextState hs⟩
  · rw [incoming_of_append transitions]
    rw [states, List.mem_append, List.mem_singleton] at hx
    rcases hx with hx | hx
    · have none_new : ts.filter (·.target == x) = [] :=
        List.filter_eq_nil_iff.mpr fun t ht he => by
          rw [beq_iff_eq, into t ht] at he
          exact h.sound.ne_nextState hx he.symm
      rw [none_new, List.append_nil]
      exact hd.entered x hx
    · obtain rfl : x = d.nextState := congrArg State.id hx
      have none_old : d.incoming d.nextState = [] :=
        List.filter_eq_nil_iff.mpr fun t ht he => old t ht (beq_iff_eq.mp he)
      have all_new : ts.filter (·.target == d.nextState) = ts :=
        List.filter_eq_self.mpr fun t ht => beq_iff_eq.mpr (into t ht)
      rwa [none_old, all_new, List.nil_append]

/-- A named state, new or not, is entered silently. -/
theorem enter_named (h : d.Tidy) (hd : d.Structured) (sound : e.Sound) {ts : List Transition}
    (states : d.states ⊆ e.states) (named : ∀ s ∈ e.states, s.name = none → s ∈ d.states)
    (transitions : e.transitions = d.transitions ++ ts)
    (into : ∀ t ∈ ts, ∃ n, ⟨t.target, some n⟩ ∈ e.states) (silent : ∀ t ∈ ts, t.label = {}) :
    e.Structured := by
  have new : ∀ t ∈ ts, ⟨t.target, none⟩ ∉ e.states := fun t ht hn => by
    obtain ⟨n, hs⟩ := into t ht
    cases sound.eq_of_id hs hn rfl
  refine ⟨fun t ht n hn => ?_, fun t ht hn => ?_, fun x hx => ?_⟩
  · rw [transitions, List.mem_append] at ht
    rcases ht with ht | ht
    · obtain ⟨s, hs, he⟩ := h.targets t ht
      exact hd.silent t ht n (sound.eq_of_id (states hs) hn he ▸ hs)
    · exact silent t ht
  · rw [transitions, List.mem_append] at ht
    rcases ht with ht | ht
    · exact hd.forward t ht (named _ hn rfl)
    · exact absurd hn (new t ht)
  · have none_new : ts.filter (·.target == x) = [] :=
      List.filter_eq_nil_iff.mpr fun t ht he => new t ht (beq_iff_eq.mp he ▸ hx)
    rw [incoming_of_append transitions, none_new, List.append_nil]
    exact hd.entered x (named _ hx rfl)

theorem step (h : d.Tidy) (hd : d.Structured) (hx : d.Fixed x) {label : Label}
    (speaks : label.Speaks) : (d.step x label).Structured := by
  refine hd.enter_new h rfl rfl (.once ⟨x, d.nextState, label⟩) ?_ ?_ ?_
  all_goals
    intro t ht
    rw [List.mem_singleton.mp ht]
  · exact hx
  · exact speaks

theorem join (h : d.Tidy) (hd : d.Structured) {a b : Option StateId}
    (apart : ∀ x, a = some x → b ≠ some x) (fixed : ∀ x, a = some x ∨ b = some x → d.Fixed x) :
    (d.join a b).Structured := by
  by_cases none : a = none ∧ b = none
  · obtain ⟨rfl, rfl⟩ := none
    exact ⟨hd.silent, hd.forward, hd.entered⟩
  · rw [join_eq none]
    refine hd.enter_new h rfl rfl ?_ (fun t ht => (mem_joining ht).1)
      (fun t ht => fixed _ (mem_joining ht).2) fun t ht => ?_
    · unfold joining
      rcases a with _ | x <;> rcases b with _ | y
      · exact absurd ⟨rfl, rfl⟩ none
      · exact .once _
      · exact .once _
      · exact .joined (fun he => apart x rfl (congrArg some he.symm)) rfl rfl
    · unfold joining at ht
      simp only [List.mem_append, List.mem_map] at ht
      rcases ht with ⟨x, -, rfl⟩ | ⟨x, -, rfl⟩
      · exact Or.inl nofun
      · exact Or.inl nofun

end Structured

/-- Reserving a name creates no state without one. -/
theorem mem_of_mem_reserve {s : State} (hs : s ∈ (d.reserve n).2.states) (unnamed : s.name = none) :
    s ∈ d.states := by
  rcases reserve_cases d n with ⟨-, he⟩ | ⟨-, -, he⟩
  · rwa [he] at hs
  · rw [he] at hs
    refine (List.mem_append.mp hs).resolve_right fun hs => ?_
    rw [List.mem_singleton.mp hs] at unnamed
    cases unnamed

namespace Structured

/-- **A move keeps a draft structured.** -/
theorem of_move (h : d.Tidy) (move : Move d e) (hd : d.Structured) : e.Structured := by
  have sound := (h.of_move move).sound
  cases move with
  | message here action => exact hd.step h (h.current _ here) (Or.inl action)
  | enter guard here => exact hd.step h (h.current _ here) (Or.inl nofun)
  | pass entered =>
    have left : d.outgoing _ ≠ [] := entered ▸ List.cons_ne_nil _ _
    exact hd.step h (h.of_outgoing left).1 (Or.inr nofun)
  | join apart ends => exact hd.join h apart fun x hx => (ends x hx).1
  | @place f n x placed =>
    have drawn := transitions_connectFrom_place placed
    have same : ((f.connectFrom d.current x {}).moveTo (some x)).states = f.states :=
      states_connectFrom _ _ _ _
    have grown := (Extends.refl h.sound).place placed
    obtain ⟨-, rfl, rfl⟩ := place_eq_ok_iff.mp placed
    refine hd.enter_named h sound (same ▸ grown.states.subset) ?_ drawn ?_ ?_
    · rw [same]
      exact fun s hs unnamed => mem_of_mem_reserve hs unnamed
    · intro t ht
      obtain ⟨y, -, rfl⟩ := List.mem_map.mp ht
      rw [same]
      exact ⟨n, mem_reserve d n⟩
    · intro t ht
      obtain ⟨y, -, rfl⟩ := List.mem_map.mp ht
      rfl
  | @jump x target here =>
    rw [jump_eq] at sound ⊢
    refine hd.enter_named h sound (states_reserve d target).subset
      (fun s hs unnamed => mem_of_mem_reserve hs unnamed) rfl ?_ ?_
    · intro t ht
      rw [List.mem_singleton.mp ht]
      exact ⟨target, mem_reserve d target⟩
    · intro t ht
      rw [List.mem_singleton.mp ht]

end Structured

end Draft

theorem Statement.structured_extendAll (body : List Statement) :
    (extendAll body Draft.empty).draft.Structured :=
  extendAll_invariant Draft.structured_empty Draft.Structured.of_move body

namespace Process

/-- The process has a named state with this number. -/
def Named (p : Process) (x : StateId) : Prop :=
  ∃ n, ⟨x, some n⟩ ∈ p.states

/-- The process has a state without a name with this number. -/
def Unnamed (p : Process) (x : StateId) : Prop :=
  ⟨x, none⟩ ∈ p.states

/-- The transitions that enter a state, in their order. -/
def transitionsInto (p : Process) (id : StateId) : List Transition :=
  p.transitions.filter (·.target == id)

/-- Transitions, one after the other, lead from the first state to the last. -/
inductive Walk (p : Process) : StateId → List Transition → StateId → Prop
  | nil {x} : Walk p x [] x
  | cons {x y t ts} (taken : t ∈ p.transitions) (here : t.source = x)
      (rest : Walk p t.target ts y) : Walk p x (t :: ts) y

variable {p : Process} {x y : StateId} {t : Transition} {ts : List Transition}

namespace Walk

theorem snoc (walk : p.Walk x ts t.source) (taken : t ∈ p.transitions) :
    p.Walk x (ts ++ [t]) t.target := by
  generalize hy : t.source = y at walk
  induction walk with
  | nil => exact .cons taken hy .nil
  | cons first here _ ih => exact .cons first here (ih hy)

theorem mem (walk : p.Walk x ts y) (ht : t ∈ ts) : t ∈ p.transitions := by
  induction walk with
  | nil => cases ht
  | cons taken _ _ ih =>
    rcases List.mem_cons.mp ht with rfl | ht
    · exact taken
    · exact ih ht

/-- A walk along transitions that go up goes up. -/
theorem le_of_forward (walk : p.Walk x ts y) (forward : ∀ t ∈ ts, t.source < t.target) :
    x ≤ y ∧ (ts ≠ [] → x < y) := by
  induction walk with
  | nil => exact ⟨Nat.le_refl _, fun h => absurd rfl h⟩
  | cons _ here _ ih =>
    have up := forward _ List.mem_cons_self
    have rest := (ih fun t ht => forward t (List.mem_cons_of_mem _ ht)).1
    rw [here] at up
    exact ⟨Nat.le_of_lt (Nat.lt_of_lt_of_le up rest), fun _ => Nat.lt_of_lt_of_le up rest⟩

end Walk

/-- Walking back from a state without a name, along transitions that go up, ends at a named one. -/
theorem exists_walk_of_unnamed (known : ∀ t ∈ p.transitions, p.Named t.source ∨ p.Unnamed t.source)
    (forward : ∀ t ∈ p.transitions, p.Unnamed t.target → t.source < t.target)
    (entered : ∀ x, p.Unnamed x → p.transitionsInto x ≠ []) (hx : p.Unnamed x) :
    ∃ y ts, p.Named y ∧ p.Walk y ts x ∧ (∀ t ∈ ts, p.Unnamed t.target) ∧
      (y :: ts.map Transition.target).Pairwise (· < ·) ∧
      ∀ z ∈ y :: ts.map Transition.target, z ≤ x := by
  induction x using Nat.strongRecOn with
  | ind x ih =>
    obtain ⟨t, ht⟩ := List.exists_mem_of_ne_nil _ (entered x hx)
    obtain ⟨taken, here⟩ := List.mem_filter.mp ht
    obtain rfl := beq_iff_eq.mp here
    have up := forward t taken hx
    rcases known t taken with named | unnamed
    · refine ⟨t.source, [t], named, .cons taken rfl .nil, ?_, ?_, ?_⟩
      · exact fun u hu => List.mem_singleton.mp hu ▸ hx
      · exact List.pairwise_pair.mpr up
      · intro z hz
        rcases List.mem_cons.mp hz with rfl | hz
        · exact Nat.le_of_lt up
        · exact Nat.le_of_eq (List.mem_singleton.mp hz)
    · obtain ⟨y, ts, named, walk, along, climbing, below⟩ := ih t.source up unnamed
      have below' : ∀ z ∈ y :: ts.map Transition.target, z < t.target := fun z hz =>
        Nat.lt_of_le_of_lt (below z hz) up
      have path : y :: (ts ++ [t]).map Transition.target =
          (y :: ts.map Transition.target) ++ [t.target] := by
        rw [List.map_append, List.cons_append]
        rfl
      refine ⟨y, ts ++ [t], named, walk.snoc taken, fun u hu => ?_, ?_, fun z hz => ?_⟩
      · rcases List.mem_append.mp hu with hu | hu
        · exact along u hu
        · exact List.mem_singleton.mp hu ▸ hx
      · rw [path, List.pairwise_append]
        exact ⟨climbing, List.pairwise_singleton _ _, fun a ha b hb =>
          List.mem_singleton.mp hb ▸ below' a ha⟩
      · rw [path, List.mem_append] at hz
        rcases hz with hz | hz
        · exact Nat.le_of_lt (below' z hz)
        · exact Nat.le_of_eq (List.mem_singleton.mp hz)

end Process

namespace Model

open Process

variable {leniency : Leniency} {nodes : List Node} {m : Model} {p : Process}

/-- **What enters the states of a process.** Named states are entered silently. States without a
name are entered from earlier ones, once or from the two alternatives of a branch; hence every cycle
passes through a named state, and every state without a name is reached from a named one. -/
theorem incoming_structured (h : ofNodes leniency nodes = .ok m) (hp : p ∈ m.processes) :
    (∀ t ∈ p.transitions, p.Named t.target ∨ p.Unnamed t.target) ∧
    (∀ t ∈ p.transitions, p.Named t.target → t.label = {}) ∧
    (∀ t ∈ p.transitions, p.Unnamed t.target → t.label.Speaks ∧ t.source < t.target) ∧
    (∀ x, p.Unnamed x → Entered (p.transitionsInto x)) ∧
    (∀ x ts, p.Walk x ts x → ts ≠ [] → ∃ t ∈ ts, p.Named t.target) ∧
    ∀ x, p.Unnamed x → ∃ y ts, p.Named y ∧ p.Walk y ts x ∧ (∀ t ∈ ts, p.Unnamed t.target) ∧
      (y :: ts.map Transition.target).Pairwise (· < ·) := by
  obtain ⟨elements, -, hread⟩ := exists_elements h hp
  obtain ⟨body, d, -, drawn, graph, -⟩ := Declaration.exists_graph hread
  have tidy := (Statement.extendAll_empty_eq_done_iff.mp drawn).tidy Draft.tidy_empty
  have structured := Statement.structured_extendAll (body.map Statement.ofNode)
  rw [drawn] at structured
  have known : ∀ s ∈ d.states, p.Named s.id ∨ p.Unnamed s.id := by
    rintro ⟨x, name⟩ hs
    rw [← graph.states] at hs
    cases name with
    | none => exact Or.inr hs
    | some n => exact Or.inl ⟨n, hs⟩
  have sources : ∀ t ∈ p.transitions, p.Named t.source ∨ p.Unnamed t.source := by
    intro t ht
    obtain ⟨name, hs, -⟩ := (tidy.sources t (graph.transitions ▸ ht)).1
    exact known _ hs
  have targets : ∀ t ∈ p.transitions, p.Named t.target ∨ p.Unnamed t.target := by
    intro t ht
    obtain ⟨s, hs, he⟩ := tidy.targets t (graph.transitions ▸ ht)
    exact he ▸ known s hs
  have forward : ∀ t ∈ p.transitions, p.Unnamed t.target → t.label.Speaks ∧ t.source < t.target :=
    fun t ht hn => structured.forward t (graph.transitions ▸ ht) (graph.states ▸ hn)
  have entered : ∀ x, p.Unnamed x → Entered (p.transitionsInto x) := by
    intro x hx
    rw [Process.transitionsInto, graph.transitions]
    exact structured.entered x (graph.states ▸ hx)
  refine ⟨targets, ?_, forward, entered, ?_, ?_⟩
  · rintro t ht ⟨n, hn⟩
    exact structured.silent t (graph.transitions ▸ ht) n (graph.states ▸ hn)
  · intro x ts walk some_taken
    by_contra avoids
    refine Nat.lt_irrefl x ((walk.le_of_forward fun t ht => ?_).2 some_taken)
    have unnamed := (targets t (walk.mem ht)).resolve_left fun hn => avoids ⟨t, ht, hn⟩
    exact (forward t (walk.mem ht) unnamed).2
  · intro x hx
    obtain ⟨y, ts, named, walk, along, climbing, -⟩ := exists_walk_of_unnamed sources
      (fun t ht hn => (forward t ht hn).2) (fun x hx => (entered x hx).ne_nil) hx
    exact ⟨y, ts, named, walk, along, climbing⟩

/-- A loop around a branch whose alternatives meet again. -/
theorem incoming_structured_loop : ∃ p,
    ofNodes { unplacedLabels := true } [.list [.symbol "defprocess", .keyword ":again",
      .list [.symbol "if", .symbol "late", .list [.symbol "!send", .symbol "Ping"],
        .list [.symbol "?receive", .symbol "Pong"]],
      .list [.symbol "goto", .keyword ":again"]]] = .ok ⟨[], [p]⟩ ∧
    ∀ x ts, p.Walk x ts x → ts ≠ [] → ∃ t ∈ ts, p.Named t.target :=
  Exists.imp (fun p h => ⟨h, (incoming_structured h (List.mem_singleton_self p)).2.2.2.2.1⟩)
    ⟨_, rfl⟩

end Model

end ProtocolGraph
