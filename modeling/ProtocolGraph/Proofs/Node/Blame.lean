import ProtocolGraph.Proofs.Node.Nesting

/-!
# Where reading stops

Tokens that have no nodes are refused at one of them, which is known from the marks alone. It is the
first token that fits nowhere, if there is one; otherwise the lists that are open in the end are to
blame, and the opening mark of the innermost one is reported.

* `Token.Misfit`, `Token.Unclosed`: a token that fits nowhere, and an opening mark that is never
  met by a closing one.
* `Token.Blamed`: the token to blame. There is at most one (`Blamed.unique`).
* `Pending.fit`, `Pending.depth`: while a node is read every token has fitted, and as many lists are
  open as the marks say.
* **`ofTokens_eq_error_iff`**: tokens are refused exactly at the token to blame, and as empty input
  exactly if there are none.
-/

namespace ProtocolGraph

namespace Token

/-- Behind `before` the token fits nowhere: it is punctuation other than the two marks, or a closing
mark where no list is open. -/
def Misfit (before : List Token) (t : Token) : Prop :=
  t.kind = .punctuation ∧ ¬t.isMark "(" = true ∧
    (t.isMark ")" = true → openings before ≤ closings before)

/-- Behind `before` each of the tokens fits. -/
def Fit (before ts : List Token) : Prop :=
  ∀ us t after, ts = us ++ t :: after → ¬Misfit (before ++ us) t

/-- The list of an opening mark in front of these tokens is never closed. -/
def Unclosed (after : List Token) : Prop :=
  ∀ us, us <+: after → closings us ≤ openings us

/-- The token between these others is to blame: it is the first that fits nowhere, or there is none
such and it is the last opening mark whose list is never closed. -/
inductive Blamed (before : List Token) (t : Token) (after : List Token) : Prop
  | misfit (first : Fit [] before) (misfit : Misfit before t)
  | unclosed (fit : Fit [] (before ++ t :: after)) (opens : t.isMark "(" = true)
      (unclosed : Unclosed after)
      (last : ∀ us u rest, after = us ++ u :: rest → u.isMark "(" = true → ¬Unclosed rest)

variable {t t' : Token} {ts us before before' after after' : List Token} {depth : Nat}

/-! ## Counting marks -/

theorem openings_append (ts us : List Token) :
    openings (ts ++ us) = openings ts + openings us :=
  List.countP_append

theorem closings_append (ts us : List Token) :
    closings (ts ++ us) = closings ts + closings us :=
  List.countP_append

theorem openings_cons_open (h : t.isMark "(" = true) (ts : List Token) :
    openings (t :: ts) = openings ts + 1 :=
  List.countP_cons_of_pos h

theorem closings_cons_open (h : t.isMark "(" = true) (ts : List Token) :
    closings (t :: ts) = closings ts :=
  List.countP_cons_of_neg (by simp [isMark_close_of_open h])

theorem openings_cons_close (h : t.isMark ")" = true) (ts : List Token) :
    openings (t :: ts) = openings ts :=
  List.countP_cons_of_neg (by simp [isMark_open_of_close h])

theorem closings_cons_close (h : t.isMark ")" = true) (ts : List Token) :
    closings (t :: ts) = closings ts + 1 :=
  List.countP_cons_of_pos h

theorem openings_nil : openings [] = 0 := rfl

theorem closings_nil : closings [] = 0 := rfl

/-! ## Tokens that fit -/

theorem fit_nil : Fit before [] := by
  intro us t after h
  simp at h

theorem fit_append_iff : Fit before (ts ++ us) ↔ Fit before ts ∧ Fit (before ++ ts) us := by
  constructor
  · intro h
    constructor
    · rintro vs t after rfl
      exact h vs t (after ++ us) (List.append_assoc _ _ _)
    · rintro vs t after rfl
      rw [List.append_assoc]
      exact h (ts ++ vs) t after (List.append_assoc _ _ _).symm
  · rintro ⟨first, second⟩ vs t after heq
    rcases List.append_eq_append_iff.mp heq with ⟨ws, rfl, rest⟩ | ⟨ws, rfl, rest⟩
    · rw [← List.append_assoc]
      exact second ws t after rest
    · cases ws with
      | nil =>
        have fits := second [] t after rest.symm
        rwa [List.append_nil, List.append_nil] at fits
      | cons u ws =>
        obtain ⟨rfl, -⟩ := List.cons.inj rest
        exact first vs t ws rfl

theorem fit_cons_iff : Fit before (t :: ts) ↔ ¬Misfit before t ∧ Fit (before ++ [t]) ts := by
  rw [← List.singleton_append, fit_append_iff]
  refine and_congr_left fun _ => ⟨fun h => ?_, fun h us u after heq => ?_⟩
  · have fits := h [] t [] rfl
    rwa [List.append_nil] at fits
  · obtain ⟨rfl, rfl, -⟩ : us = [] ∧ u = t ∧ after = [] := by
      simpa [List.singleton_eq_append_iff, and_assoc] using heq
    rwa [List.append_nil]

theorem not_misfit_open (h : t.isMark "(" = true) : ¬Misfit before t :=
  fun misfit => misfit.2.1 h

/-- Tokens that close no more than is open fit. -/
theorem Nested.fit (h : Nested depth ts) (deep : closings before + depth ≤ openings before) :
    Fit before ts := by
  rintro us t after rfl ⟨punctuation, shut, none⟩
  have closes := (h.marks t (by simp) punctuation).resolve_left shut
  have front := h.initial (us ++ [t]) ⟨after, List.append_assoc _ _ _⟩
  have count := none closes
  rw [openings_append, closings_append, openings_cons_close closes, closings_cons_close closes,
    openings_nil, closings_nil] at front
  rw [openings_append, closings_append] at count
  omega

/-! ## The token to blame -/

theorem Nested.unclosed (h : Nested 0 ts) : Unclosed ts :=
  fun us hus => Nat.zero_add (openings us) ▸ h.initial us hus

/-- No opening mark among nested tokens is left without its closing mark. -/
theorem Nested.not_unclosed (h : Nested 0 (us ++ t :: after)) (opens : t.isMark "(" = true) :
    ¬Unclosed after := by
  intro unclosed
  have front := h.initial us (List.prefix_append _ _)
  have rest := unclosed after (List.prefix_refl _)
  have total := h.total
  rw [openings_append, closings_append, openings_cons_open opens, closings_cons_open opens] at total
  omega

theorem Blamed.not_nested (h : Blamed before t after) : ¬Nested 0 (before ++ t :: after) := by
  intro nested
  cases h with
  | misfit first misfit =>
    have fits : Fit [] (before ++ t :: after) := nested.fit (Nat.le_refl _)
    exact fits before t after rfl misfit
  | unclosed fit opens unclosed last => exact nested.not_unclosed opens unclosed

/-- A token to blame has no other one to blame behind it. -/
theorem Blamed.not_later (h : Blamed before t after)
    (h' : Blamed (before ++ t :: us) t' after') (same : after = us ++ t' :: after') : False := by
  subst same
  cases h with
  | misfit first misfit =>
    have fits : Fit [] (before ++ t :: us) := by
      cases h' with
      | misfit first' misfit' => exact first'
      | unclosed fit' opens' unclosed' last' => exact (fit_append_iff.mp fit').1
    exact fits before t us rfl misfit
  | unclosed fit opens unclosed last =>
    cases h' with
    | misfit first' misfit' =>
      rw [← List.cons_append, ← List.append_assoc] at fit
      exact fit _ t' after' rfl misfit'
    | unclosed fit' opens' unclosed' last' => exact last us t' after' rfl opens' unclosed'

/-- **There is one token to blame** at most. -/
theorem Blamed.unique (h : Blamed before t after) (h' : Blamed before' t' after')
    (same : before ++ t :: after = before' ++ t' :: after') : t = t' := by
  rcases List.append_eq_append_iff.mp same with ⟨us, rfl, rest⟩ | ⟨us, rfl, rest⟩
  · cases us with
    | nil => exact (List.cons.inj rest).1
    | cons u us =>
      obtain ⟨rfl, behind⟩ := List.cons.inj rest
      exact (h.not_later h' behind).elim
  · cases us with
    | nil => exact (List.cons.inj rest).1.symm
    | cons u us =>
      obtain ⟨rfl, behind⟩ := List.cons.inj rest
      exact (h'.not_later h behind).elim

end Token

namespace Node

open Token

variable {t : Token} {ts rest used before stuck : List Token} {opened : List Opened}

/-! ## Reading up to the token to blame -/

/-- As many lists are open as the marks say. -/
theorem Pending.depth (h : Pending opened ts) :
    openings ts = closings ts + opened.length := by
  induction h with
  | nil => rfl
  | @cons o outer before t inner tail opens start derived ih =>
    have total := derived.nested.total
    rw [openings_append, closings_append, openings_cons_open opens, closings_cons_open opens,
      List.length_cons]
    omega

/-- Every token of a node that is being read has fitted. -/
theorem Pending.fit (h : Pending opened ts) (balanced : closings used = openings used) :
    Fit used ts := by
  induction h with
  | nil => exact fit_nil
  | @cons o outer before t inner tail opens start derived ih =>
    refine fit_append_iff.mpr ⟨ih, fit_cons_iff.mpr ⟨not_misfit_open opens, ?_⟩⟩
    have depth := tail.depth
    refine derived.nested.fit ?_
    simp only [openings_append, closings_append, openings_cons_open opens, closings_cons_open opens,
      openings_nil, closings_nil]
    omega

/-- Only a token that fits nowhere stops the reading. -/
theorem Pending.misfit (h : Pending opened before) (balanced : closings used = openings used)
    (progress : Progress.of opened t rest = .stuck) : Misfit (used ++ before) t := by
  have depth := h.depth
  have ongoing : ∀ n outer, Progress.give n outer ≠ .stuck := fun n outer => by
    cases outer <;> exact nofun
  refine ⟨ofToken?_eq_none_iff.mp ?_, fun opens => ?_, fun closes => ?_⟩
  · cases leaf : ofToken? t with
    | none => rfl
    | some n =>
      rw [Progress.of_leaf (ofToken?_eq_some_iff.mp leaf)] at progress
      exact (ongoing _ _ progress).elim
  · rw [Progress.of_open opens] at progress
    cases progress
  · cases opened with
    | nil =>
      rw [openings_append, closings_append, depth, balanced]
      exact Nat.le_refl _
    | cons o outer =>
      rw [Progress.of_close closes] at progress
      exact (ongoing _ _ progress).elim

/-- Behind `used` a node could be read that far, and then this token is to blame. -/
def StopsAt (used ts stuck : List Token) : Prop :=
  ∃ before t after, ts = before ++ t :: after ∧ stuck.head? = some t ∧
    Blamed (used ++ before) t after

/-- **The reading of a node stops** at the token to blame. -/
theorem stopsAt_of_readRest (h : readRest opened ts = .error stuck)
    (pending : Pending opened before) (balanced : closings used = openings used)
    (fit : Fit [] used) (some : before ++ ts ≠ []) : StopsAt used (before ++ ts) stuck := by
  induction ts generalizing opened before with
  | nil =>
    cases pending with
    | nil => exact (some rfl).elim
    | @cons o outer before t inner tail opens start derived =>
      rw [List.append_nil]
      refine ⟨before, t, inner, rfl, Except.error.inj h ▸ start, .unclosed ?_ opens ?_ ?_⟩
      · have whole := (Pending.cons tail opens start derived).fit balanced
        rw [List.append_assoc]
        exact fit_append_iff.mpr ⟨fit, whole⟩
      · exact derived.nested.unclosed
      · rintro us u rest rfl opens'
        exact derived.nested.not_unclosed opens'
  | cons t ts ih =>
    have step := pending.step t ts
    rw [readRest] at h
    split at h
    · rename_i progress
      rw [progress] at step
      have stops := ih h step (by simp)
      rwa [List.append_assoc, List.singleton_append] at stops
    · cases h
    · rename_i progress
      cases h
      exact ⟨before, t, ts, rfl, rfl, .misfit (fit_append_iff.mpr ⟨fit, pending.fit balanced⟩)
        (pending.misfit balanced progress)⟩

theorem stopsAt_of_readAll (h : readAll ts = .error stuck)
    (balanced : closings used = openings used) (fit : Fit [] used) : StopsAt used ts stuck := by
  induction ts using readAll.induct generalizing used with
  | case1 =>
    rw [readAll_nil] at h
    cases h
  | case2 ts nonempty stuck' failed =>
    obtain rfl := Except.error.inj ((readAll_of_error nonempty failed).symm.trans h)
    exact stopsAt_of_readRest failed .nil balanced fit nonempty
  | case3 ts nonempty n rest read ih =>
    rw [readAll_of_readNode read] at h
    obtain ⟨front, rfl, derived⟩ := derives_of_readNode read
    have nested := (derivesAll_singleton derived).nested
    have balanced' : closings (used ++ front) = openings (used ++ front) := by
      have total := nested.total
      rw [openings_append, closings_append]
      omega
    have fit' := fit_append_iff.mpr ⟨fit, nested.fit (Nat.le_of_eq balanced)⟩
    obtain ⟨before, t, after, rfl, first, blamed⟩ :=
      ih (Outcome.map_eq_error_iff.mp h) balanced' fit'
    exact ⟨front ++ before, t, after, (List.append_assoc _ _ _).symm, first,
      List.append_assoc used front before ▸ blamed⟩

theorem exists_blamed_of_readAll (h : readAll ts = .error stuck) :
    ∃ before t after, ts = before ++ t :: after ∧ Blamed before t after ∧
      Fault.at stuck = .unexpectedToken t.text t.offset := by
  obtain ⟨before, t, after, rfl, first, blamed⟩ := stopsAt_of_readAll h rfl (@fit_nil [])
  obtain ⟨rest, rfl⟩ := List.head?_eq_some_iff.mp first
  exact ⟨before, t, after, rfl, blamed, rfl⟩

/-- **Where reading stops.** Tokens are refused as empty input exactly if there are none. Otherwise
they are refused exactly if there is a token to blame, with the text and the offset of this token:
the first that is punctuation other than the two marks, or a closing mark where no list is open, if
there is such a token, and the last opening mark whose list is never closed if there is none. -/
theorem ofTokens_eq_error_iff (ts : List Token) (fault : Fault) :
    ofTokens ts = .error fault ↔ ts = [] ∧ fault = .emptyInput ∨
      ∃ before t after, ts = before ++ t :: after ∧ Blamed before t after ∧
        fault = .unexpectedToken t.text t.offset := by
  unfold ofTokens
  by_cases empty : ts = []
  · subst empty
    simp [eq_comm]
  · rw [if_neg empty]
    simp only [empty, false_and, false_or]
    constructor
    · intro h
      cases read : readAll ts with
      | ok ns =>
        rw [read] at h
        cases h
      | error stuck =>
        rw [read] at h
        obtain ⟨before, t, after, heq, blamed, fault_eq⟩ := exists_blamed_of_readAll read
        exact ⟨before, t, after, heq, blamed, (Except.error.inj h).symm.trans fault_eq⟩
    · rintro ⟨before, t, after, rfl, blamed, rfl⟩
      cases read : readAll (before ++ t :: after) with
      | ok ns => exact (blamed.not_nested (readAll_eq_ok_iff.mp read).nested).elim
      | error stuck =>
        obtain ⟨before', t', after', same, blamed', fault_eq⟩ := exists_blamed_of_readAll read
        rw [blamed.unique blamed' same]
        exact congrArg Except.error fault_eq

end Node

end ProtocolGraph
