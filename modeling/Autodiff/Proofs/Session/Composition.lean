import Autodiff.Session.Jacobian

/-!
# Calls that are put together from sweeps

Gradients and Jacobians are the same programs over every kind of sweep. If two kinds of sweep are related, then so are
the calls that are put together from them, for every relation that respects how programs are put together.
-/

namespace Autodiff

namespace Session

variable {m n : Type → Type} [Monad m] [MonadExceptOf Error m] [MonadLiftT (Except Error) m] [Monad n]
  [MonadExceptOf Error n] [MonadLiftT (Except Error) n]

variable (m n) in
structure Compositional (related : {β : Type} → m β → n β → Prop) : Prop where
  pure : ∀ {β : Type} (value : β), related (pure value) (pure value)
  throw : ∀ {β : Type} (cause : Error),
    related (MonadExcept.throw cause : m β) (MonadExcept.throw cause : n β)
  lift : ∀ {β : Type} (computed : Except Error β), related (liftM computed) (liftM computed)
  bind : ∀ {β γ : Type} {first : m β} {second : n β} {next : β → m γ} {follow : β → n γ}, related first second →
    (∀ value, related (next value) (follow value)) → related (first >>= next) (second >>= follow)

namespace Compositional

variable {related : {β : Type} → m β → n β → Prop} (logic : Compositional m n related) {α β γ : Type}

include logic

theorem jacobianBy (session : Session α) {columns rows : m (List (List α))} {otherColumns otherRows : n (List (List α))}
    (byColumns : related columns otherColumns) (byRows : related rows otherRows) (iind oind : Nat) :
    related (session.jacobianBy columns rows iind oind) (session.jacobianBy otherColumns otherRows iind oind) := by
  apply logic.bind (logic.lift _)
  intro input
  apply logic.bind (logic.lift _)
  intro output
  split
  · exact byColumns
  · exact byRows

variable (session : Session α) {sweep : List (Seed α) → m (Derivatives α)} {other : List (Seed α) → n (Derivatives α)}

section OneSide

variable (each : ∀ seeds, related (sweep seeds) (other seeds))

include each

theorem gradientBy (oind : Nat) : related (session.gradientBy sweep oind) (session.gradientBy other oind) := by
  apply logic.bind (logic.lift _)
  intro output
  split
  · exact logic.bind (logic.throw _) fun _ => logic.bind (each _) fun _ => logic.pure _
  · exact logic.bind (each _) fun _ => logic.pure _

theorem step (width : Nat) (sweeps : ColorSweeps α) :
    related (sweeps.step sweep width) (sweeps.step other width) := by
  unfold ColorSweeps.step
  split
  · exact logic.bind (logic.throw _) fun _ => logic.bind (each _) fun _ => logic.pure _
  · exact logic.bind (each _) fun _ => logic.pure _

theorem sweepColors (seeds : List (Seed α)) :
    related (session.sweepColors sweep seeds) (session.sweepColors other seeds) := by
  unfold Session.sweepColors
  generalize ({ remaining := seeds } : ColorSweeps α) = sweeps
  induction sweeps using ColorSweeps.run.induct with
  | case1 sweeps done =>
      rw [ColorSweeps.run, if_pos done, ColorSweeps.run, if_pos done]
      exact logic.pure _
  | case2 sweeps unfinished ih =>
      rw [ColorSweeps.run, if_neg unfinished, ColorSweeps.run, if_neg unfinished]
      apply logic.bind (logic.step each _ sweeps)
      intro after
      split
      next shorter => exact ih after shorter
      next => exact logic.throw _

end OneSide

variable [LawfulMonad m] [LawfulMonad n]

theorem mapM {run : β → m γ} {other : β → n γ} (elements : List β)
    (each : ∀ element, related (run element) (other element)) :
    related (elements.mapM run) (elements.mapM other) := by
  induction elements with
  | nil => exact logic.pure []
  | cons element elements ih =>
      simp only [List.mapM_cons]
      exact logic.bind (each element) fun _ => logic.bind ih fun _ => logic.pure _

section OneSide

variable (each : ∀ seeds, related (sweep seeds) (other seeds))

include each

theorem packed (rest : Nat) (seeds : List (Seed α)) :
    related (Session.packed sweep rest seeds) (Session.packed other rest seeds) :=
  logic.bind (logic.mapM _ each) fun _ => logic.pure _

theorem jacobianByColumns (iind oind : Nat) :
    related (session.jacobianByColumns sweep iind oind) (session.jacobianByColumns other iind oind) := by
  apply logic.bind (logic.lift _)
  intro input
  apply logic.bind (logic.lift _)
  intro output
  apply logic.bind (logic.packed each _ _)
  intro columns
  exact logic.mapM _ fun row => logic.mapM _ fun column => logic.lift _

theorem jacobianByRows (iind oind : Nat) :
    related (session.jacobianByRows sweep iind oind) (session.jacobianByRows other iind oind) := by
  apply logic.bind (logic.lift _)
  intro input
  apply logic.bind (logic.lift _)
  intro output
  apply logic.bind (logic.packed each _ _)
  intro rows
  exact logic.mapM _ fun row => logic.lift _

end OneSide

theorem sparseJacobianBy {reverse : List (Seed α) → m (Derivatives α)} {otherReverse : List (Seed α) → n (Derivatives α)}
    (forwards : ∀ seeds, related (sweep seeds) (other seeds))
    (reverses : ∀ seeds, related (reverse seeds) (otherReverse seeds)) (iind oind : Nat) :
    related (session.sparseJacobianBy sweep reverse iind oind)
      (session.sparseJacobianBy other otherReverse iind oind) := by
  apply logic.bind (logic.lift _)
  intro pattern
  apply logic.bind (logic.lift _)
  intro byColumn
  apply logic.bind (logic.lift _)
  intro byRow
  split
  · apply logic.bind (logic.sweepColors session forwards _)
    intro found
    exact logic.bind (logic.mapM _ fun _ => logic.lift _) fun values => logic.pure _
  · apply logic.bind (logic.sweepColors session reverses _)
    intro found
    exact logic.bind (logic.mapM _ fun _ => logic.lift _) fun values => logic.pure _

end Compositional

end Session

end Autodiff
