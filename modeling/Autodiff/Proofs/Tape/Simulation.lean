import Mathlib.Data.List.Forall2

/-!
# Computations with related results

Two computations in one monad simulate each other up to a relation on their results if nothing that
follows can tell them apart, as long as it treats related results alike. The rules below follow the
shape of programs, so a simulation of two sweeps is put together from simulations of their steps.
-/

namespace Autodiff

variable {m : Type → Type} [Monad m]

/-- Whatever follows and does the same on related results, does the same after both. -/
def Simulates {σ τ : Type} (related : σ → τ → Prop) (first : m σ) (second : m τ) : Prop :=
  ∀ ⦃β : Type⦄ (firstNext : σ → m β) (secondNext : τ → m β),
    (∀ left right, related left right → firstNext left = secondNext right) →
      first >>= firstNext = second >>= secondNext

theorem mapM_eq_of_forall₂ [LawfulMonad m] {σ τ ρ : Type} {related : σ → τ → Prop} {run : σ → m ρ}
    {run' : τ → m ρ} {lefts : List σ} {rights : List τ} (linked : List.Forall₂ related lefts rights)
    (equal : ∀ left right, related left right → run left = run' right) :
    lefts.mapM run = rights.mapM run' := by
  induction linked with
  | nil => rfl
  | cons head _ ih => simp only [List.mapM_cons, equal _ _ head, ih]

theorem mapM_congr_mem [LawfulMonad m] {σ ρ : Type} {run run' : σ → m ρ} {elements : List σ}
    (equal : ∀ element ∈ elements, run element = run' element) :
    elements.mapM run = elements.mapM run' := by
  have paired : List.Forall₂ (fun left right => left = right ∧ left ∈ elements) elements elements :=
    List.forall₂_same.mpr fun element member => ⟨rfl, member⟩
  refine mapM_eq_of_forall₂ paired ?_
  rintro element _ ⟨rfl, member⟩
  exact equal element member

namespace Simulates

variable [LawfulMonad m] {σ τ σ' τ' : Type} {related : σ → τ → Prop} {related' : σ' → τ' → Prop}

theorem pure {left : σ} {right : τ} (linked : related left right) :
    Simulates related (Pure.pure left : m σ) (Pure.pure right) := by
  intro β firstNext secondNext next
  simpa using next left right linked

omit [LawfulMonad m] in
theorem same (computation : m σ) : Simulates Eq computation computation := by
  intro β firstNext secondNext next
  have equal : firstNext = secondNext := funext fun result => next result result rfl
  rw [equal]

theorem bind {first : m σ} {second : m τ} {firstRest : σ → m σ'} {secondRest : τ → m τ'}
    (head : Simulates related first second)
    (rest : ∀ left right, related left right →
      Simulates related' (firstRest left) (secondRest right)) :
    Simulates related' (first >>= firstRest) (second >>= secondRest) := by
  intro β firstNext secondNext next
  simp only [bind_assoc]
  exact head _ _ fun left right linked => rest left right linked _ _ next

omit [LawfulMonad m] in
theorem mono {first : m σ} {second : m τ} {weaker : σ → τ → Prop}
    (simulates : Simulates related first second)
    (implies : ∀ left right, related left right → weaker left right) :
    Simulates weaker first second := by
  intro β firstNext secondNext next
  exact simulates _ _ fun left right linked => next left right (implies left right linked)

theorem eq {first second : m σ} (simulates : Simulates Eq first second) : first = second := by
  have := simulates Pure.pure Pure.pure (by rintro left right rfl; rfl)
  simpa using this

theorem mapM {run : σ → m σ'} {run' : τ → m τ'} {lefts : List σ} {rights : List τ}
    (linked : List.Forall₂ related lefts rights)
    (step : ∀ left right, related left right → Simulates related' (run left) (run' right)) :
    Simulates (List.Forall₂ related') (lefts.mapM run) (rights.mapM run') := by
  induction linked with
  | nil => exact pure List.Forall₂.nil
  | cons head _ ih =>
      simp only [List.mapM_cons]
      refine bind (step _ _ head) fun left right leftRight => ?_
      exact bind ih fun lefts rights leftsRights => pure (.cons leftRight leftsRights)

theorem mapM_same {run : σ → m σ'} {run' : σ → m τ'} {elements : List σ}
    (step : ∀ element ∈ elements, Simulates related' (run element) (run' element)) :
    Simulates (List.Forall₂ related') (elements.mapM run) (elements.mapM run') := by
  have paired : List.Forall₂ (fun left right => left = right ∧ left ∈ elements) elements elements :=
    List.forall₂_same.mpr fun element member => ⟨rfl, member⟩
  refine mapM paired ?_
  rintro element _ ⟨rfl, member⟩
  exact step element member

theorem foldlM {step : σ → σ' → m σ} {step' : τ → τ' → m τ} {lefts : List σ'} {rights : List τ'}
    (linked : List.Forall₂ related' lefts rights)
    (steps : ∀ left right element element', related left right → related' element element' →
      Simulates related (step left element) (step' right element'))
    {left : σ} {right : τ} (start : related left right) :
    Simulates related (lefts.foldlM step left) (rights.foldlM step' right) := by
  induction linked generalizing left right with
  | nil => exact pure start
  | cons head _ ih =>
      simp only [List.foldlM_cons]
      exact bind (steps _ _ _ _ start head) fun _ _ next => ih next

end Simulates

end Autodiff
