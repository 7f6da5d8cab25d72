import Mathlib.Data.List.Forall2

/-!
# Chains of outcomes

Reading text is a chain of steps, each of which answers something or fails. A chain that succeeds is
taken apart from its end: every step on the way succeeded.

* `bind_eq_ok_iff`, `map_eq_ok_iff`, `mapError_eq_ok_iff`: one step.
* `mapM_eq_ok_iff`: one step for each element of a list. If it fails, the first element that fails
  is to blame (`mapM_eq_error_iff`).
-/

namespace ProtocolGraph.Outcome

/-- Outcomes can be compared when failures and answers can. -/
instance decidableEqExcept {ε α : Type} [DecidableEq ε] [DecidableEq α] :
    DecidableEq (Except ε α)
  | .ok a, .ok b => decidable_of_iff (a = b) ⟨congrArg Except.ok, Except.ok.inj⟩
  | .error e, .error f => decidable_of_iff (e = f) ⟨congrArg Except.error, Except.error.inj⟩
  | .ok _, .error _ | .error _, .ok _ => isFalse nofun

variable {α β ε δ : Type} {r : Except ε α} {a : α} {b : β}

theorem bind_eq_ok_iff {next : α → Except ε β} :
    r >>= next = .ok b ↔ ∃ a, r = .ok a ∧ next a = .ok b := by
  cases r with
  | error e => simp [bind, Except.bind]
  | ok a => simp [bind, Except.bind]

theorem bind_eq_error_iff {next : α → Except ε β} {e : ε} :
    r >>= next = .error e ↔ r = .error e ∨ ∃ a, r = .ok a ∧ next a = .error e := by
  cases r with
  | error e' => simp [bind, Except.bind]
  | ok a => simp [bind, Except.bind]

theorem map_eq_ok_iff {f : α → β} : r.map f = .ok b ↔ ∃ a, r = .ok a ∧ f a = b := by
  cases r with
  | error e => simp [Except.map]
  | ok a => simp [Except.map]

theorem map_eq_error_iff {f : α → β} {e : ε} : r.map f = .error e ↔ r = .error e := by
  cases r with
  | error e => simp [Except.map]
  | ok a => simp [Except.map]

theorem mapError_eq_ok_iff {f : ε → δ} : r.mapError f = .ok a ↔ r = .ok a := by
  cases r with
  | error e => simp [Except.mapError]
  | ok a => simp [Except.mapError]

theorem mapError_eq_error_iff {f : ε → δ} {e : δ} :
    r.mapError f = .error e ↔ ∃ e', r = .error e' ∧ f e' = e := by
  cases r with
  | error e => simp [Except.mapError]
  | ok a => simp [Except.mapError]

/-- The answers for a list are the answers for its elements. -/
theorem mapM_eq_ok_iff {f : α → Except ε β} {as : List α} : ∀ {bs : List β},
    as.mapM f = .ok bs ↔ List.Forall₂ (fun a b => f a = .ok b) as bs := by
  induction as with
  | nil =>
    intro bs
    rw [List.mapM_nil, List.forall₂_nil_left_iff]
    constructor
    · exact fun h => (Except.ok.inj h).symm
    · rintro rfl
      rfl
  | cons a as ih =>
    intro bs
    rw [List.mapM_cons, bind_eq_ok_iff, List.forall₂_cons_left_iff]
    refine exists_congr fun b => ?_
    rw [bind_eq_ok_iff]
    constructor
    · rintro ⟨hb, rest, hrest, heq⟩
      exact ⟨rest, hb, ih.mp hrest, (Except.ok.inj heq).symm⟩
    · rintro ⟨rest, hb, hrest, rfl⟩
      exact ⟨hb, rest, ih.mpr hrest, rfl⟩

/-- If there are answers for a list there is one for each of its elements. -/
theorem exists_ok_of_mapM {f : α → Except ε β} {as : List α} {bs : List β}
    (h : as.mapM f = .ok bs) (ha : a ∈ as) : ∃ b, f a = .ok b := by
  have related := mapM_eq_ok_iff.mp h
  clear h
  induction related with
  | nil => cases ha
  | @cons c b cs bs hb _ ih =>
    rcases List.mem_cons.mp ha with rfl | ha
    · exact ⟨b, hb⟩
    · exact ih ha

/-- There are answers for a list exactly if there is one for each of its elements. -/
theorem exists_mapM_iff {f : α → Except ε β} {as : List α} :
    (∃ bs, as.mapM f = .ok bs) ↔ ∀ a ∈ as, ∃ b, f a = .ok b := by
  refine ⟨fun ⟨bs, h⟩ a ha => exists_ok_of_mapM h ha, fun each => ?_⟩
  induction as with
  | nil => exact ⟨[], rfl⟩
  | cons a as ih =>
    obtain ⟨⟨b, hb⟩, each⟩ := List.forall_mem_cons.mp each
    obtain ⟨bs, hbs⟩ := ih each
    exact ⟨b :: bs, mapM_eq_ok_iff.mpr (.cons hb (mapM_eq_ok_iff.mp hbs))⟩

/-- A list fails with the first of its elements that fails. -/
theorem mapM_eq_error_iff {f : α → Except ε β} {as : List α} {e : ε} :
    as.mapM f = .error e ↔ ∃ before a after, as = before ++ a :: after ∧
      (∀ x ∈ before, ∃ b, f x = .ok b) ∧ f a = .error e := by
  constructor
  · intro h
    induction as with
    | nil =>
      rw [List.mapM_nil] at h
      cases h
    | cons c as ih =>
      rw [List.mapM_cons, bind_eq_error_iff] at h
      rcases h with hc | ⟨b, hb, h⟩
      · exact ⟨[], c, as, rfl, by simp, hc⟩
      · rcases bind_eq_error_iff.mp h with h | ⟨bs, -, h⟩
        · obtain ⟨before, a, after, rfl, ok, ha⟩ := ih h
          exact ⟨c :: before, a, after, rfl, List.forall_mem_cons.mpr ⟨⟨b, hb⟩, ok⟩, ha⟩
        · cases h
  · rintro ⟨before, a, after, rfl, ok, ha⟩
    induction before with
    | nil =>
      rw [List.nil_append, List.mapM_cons, bind_eq_error_iff]
      exact .inl ha
    | cons c before ih =>
      obtain ⟨⟨b, hb⟩, ok⟩ := List.forall_mem_cons.mp ok
      rw [List.cons_append, List.mapM_cons, bind_eq_error_iff]
      exact .inr ⟨b, hb, bind_eq_error_iff.mpr (.inl (ih ok))⟩

/-- Every answer for a list is the answer for one of its elements. -/
theorem exists_of_mem_mapM {f : α → Except ε β} {as : List α} {bs : List β}
    (h : as.mapM f = .ok bs) (hb : b ∈ bs) : ∃ a ∈ as, f a = .ok b := by
  have related := mapM_eq_ok_iff.mp h
  clear h
  induction related with
  | nil => cases hb
  | @cons a c as cs hc _ ih =>
    rcases List.mem_cons.mp hb with rfl | hb
    · exact ⟨a, List.mem_cons_self, hc⟩
    · obtain ⟨a', ha', he⟩ := ih hb
      exact ⟨a', List.mem_cons_of_mem a ha', he⟩

end ProtocolGraph.Outcome
