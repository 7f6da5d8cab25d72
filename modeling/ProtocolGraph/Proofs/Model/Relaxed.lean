import ProtocolGraph.Proofs.Declaration.Graph
import ProtocolGraph.Proofs.Token.Scan

/-!
# Relaxed readings

Two readings of one text, of which the second tolerates more, part only where the first fails with a
fault that may be tolerated. `Relaxes r r'` says this of two outcomes, and every step of a reading
keeps it (`Relaxes.bind`, `Relaxes.map`, `Relaxes.within`, `Relaxes.mapM`).

* `Model.nodesOfSource_lenient`: before there are nodes, only a quote that is never closed can make
  a difference.
* `Declaration.relaxes_ofElements`: in a declaration, only an unplaced label can.
* **`Model.relaxes_ofSource`**: every reading of a text relaxes the strict one.
-/

namespace ProtocolGraph

/-- The cause is a fault that a leniency may tolerate. -/
def Cause.Tolerable : Cause → Prop
  | .token (.unterminatedText _) | .graph (.unplacedLabel _) => True
  | _ => False

/-- The second outcome is the first, unless the first is a failure that may be tolerated. -/
def Relaxes {α : Type} (r r' : Except Failure α) : Prop :=
  r' = r ∨ ∃ f, r = .error f ∧ f.cause.Tolerable

namespace Relaxes

variable {α β : Type} {r r' : Except Failure α}

theorem refl (r : Except Failure α) : Relaxes r r :=
  Or.inl rfl

theorem bind {next next' : α → Except Failure β} (h : Relaxes r r')
    (hn : ∀ a, Relaxes (next a) (next' a)) : Relaxes (r >>= next) (r' >>= next') := by
  rcases h with heq | ⟨f, rfl, tolerable⟩
  · rw [heq]
    cases r with
    | error f => exact refl _
    | ok a => exact hn a
  · exact Or.inr ⟨f, rfl, tolerable⟩

theorem map (h : Relaxes r r') (g : α → β) : Relaxes (r.map g) (r'.map g) := by
  rcases h with rfl | ⟨f, rfl, tolerable⟩
  · exact refl _
  · exact Or.inr ⟨f, rfl, tolerable⟩

theorem within (h : Relaxes r r') (form : String) :
    Relaxes (Declaration.within form r) (Declaration.within form r') := by
  rcases h with rfl | ⟨f, rfl, tolerable⟩
  · exact refl _
  · exact Or.inr ⟨f.within form, rfl, tolerable⟩

theorem mapM {γ : Type} {read read' : γ → Except Failure α}
    (h : ∀ c, Relaxes (read c) (read' c)) (cs : List γ) :
    Relaxes (cs.mapM read) (cs.mapM read') := by
  induction cs with
  | nil => exact refl _
  | cons c rest ih =>
    rw [List.mapM_cons, List.mapM_cons]
    exact (h c).bind fun a => ih.bind fun as => refl _

/-- What succeeds is not changed. -/
theorem of_ok {a : α} (h : Relaxes (.ok a) r') : r' = .ok a := by
  rcases h with h | ⟨f, hf, -⟩
  · exact h
  · cases hf

/-- What fails otherwise is not changed either. -/
theorem of_error {f : Failure} (h : Relaxes (.error f) r') (intolerable : ¬f.cause.Tolerable) :
    r' = .error f := by
  rcases h with h | ⟨g, hg, tolerable⟩
  · exact h
  · cases hg
    exact (intolerable tolerable).elim

end Relaxes

/-! ## Declarations -/

namespace Declaration

variable (leniency : Leniency)

theorem relaxes_finish (name : Option String) (d : Draft) :
    Relaxes (drawing (d.finish .strict name)) (drawing (d.finish leniency name)) := by
  unfold Draft.finish
  cases leniency.unplacedLabels with
  | false => exact .refl _
  | true =>
    cases d.unplaced with
    | nil => exact .refl _
    | cons label rest => exact Or.inr ⟨_, rfl, trivial⟩

theorem relaxes_readProcess (f : Form) :
    Relaxes (readProcess .strict f) (readProcess leniency f) :=
  (Relaxes.refl _).bind fun _ => (Relaxes.refl _).bind fun _ => (Relaxes.refl _).bind fun d =>
    relaxes_finish leniency _ d

theorem relaxes_ofForm (f : Form) : Relaxes (ofForm .strict f) (ofForm leniency f) := by
  unfold ofForm
  split
  · exact .refl _
  · split
    · exact ((relaxes_readProcess leniency f).map _).within _
    · exact .refl _

/-- In a declaration, only an unplaced label makes a difference. -/
theorem relaxes_ofElements (elements : List Node) :
    Relaxes (ofElements .strict elements) (ofElements leniency elements) :=
  (Relaxes.refl _).bind (relaxes_ofForm leniency)

end Declaration

/-! ## Sources -/

namespace Model

theorem relaxes_ofNodes (leniency : Leniency) (nodes : List Node) :
    Relaxes (ofNodes .strict nodes) (ofNodes leniency nodes) :=
  (Relaxes.mapM (Declaration.relaxes_ofElements leniency) _).map _

variable [Text.Alphabet]

/-- Before there are nodes, only a quote that is never closed makes a difference. -/
theorem nodesOfSource_lenient (leniency : Leniency) (source : String) :
    nodesOfSource leniency source = nodesOfSource .strict source ∨
      leniency.unterminatedText = true ∧ ∃ start,
        nodesOfSource .strict source = .error (.of (.token (.unterminatedText start))) := by
  unfold nodesOfSource Token.scan
  rcases Token.scanFrom_lenient leniency 0 source.toList with same | ⟨tolerated, start, h⟩
  · rw [same]
    exact Or.inl rfl
  · rw [h]
    exact Or.inr ⟨tolerated, start, rfl⟩

theorem ofSource_eq_bind (leniency : Leniency) (source : String) :
    ofSource leniency source = nodesOfSource leniency source >>= ofNodes leniency := by
  unfold ofSource
  cases nodesOfSource leniency source <;> rfl

/-- **Every reading of a text relaxes the strict one.** -/
theorem relaxes_ofSource (leniency : Leniency) (source : String) :
    Relaxes (ofSource .strict source) (ofSource leniency source) := by
  rw [ofSource_eq_bind, ofSource_eq_bind]
  refine Relaxes.bind ?_ (relaxes_ofNodes leniency)
  rcases nodesOfSource_lenient leniency source with same | ⟨-, start, h⟩
  · exact Or.inl same
  · exact Or.inr ⟨_, h, trivial⟩

end Model

end ProtocolGraph
