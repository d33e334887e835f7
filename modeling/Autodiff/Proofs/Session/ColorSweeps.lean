import Autodiff.Proofs.Outcome
import Autodiff.Session.Jacobian
import Mathlib.Algebra.Group.Nat.Defs

/-!
# Sweeps over colors

The sweeps over colors are packed sweeps (`ColorSweeps.run_eq_packed`) if their width is not zero and the end of
every sweep can be counted in 32 bits. Widths of 32 bits and fewer than 2³¹ colors are enough for both. A
sweep of width zero leaves everything as it was, however often it is repeated.
-/

namespace Autodiff

/-- Sweeps of the width, one behind the other, reach all colors, and the end of each can be counted in
32 bits. -/
def Tiles (width colors : Nat) : Prop :=
  0 < width ∧ ∀ before, before * width < colors → before * width + width < 2 ^ 32

theorem tiles_of_lt {width colors : Nat} (positive : 0 < width) (small : width < 2 ^ 32)
    (few : colors < 2 ^ 31) : Tiles width colors := by
  refine ⟨positive, fun before inside => ?_⟩
  cases before with
  | zero => omega
  | succ before =>
      have further : width ≤ (before + 1) * width := Nat.le_mul_of_pos_left _ (by omega)
      omega

theorem Tiles.one {width colors : Nat} (tiles : Tiles width colors) : Tiles 1 colors := by
  refine ⟨Nat.one_pos, fun before inside => ?_⟩
  rw [Nat.mul_one] at inside ⊢
  -- The color lies in the sweep that starts at the last multiple of the width.
  have starts := tiles.2 (before / width) (Nat.lt_of_le_of_lt (Nat.div_mul_le_self ..) inside)
  have ends := Nat.lt_div_mul_add tiles.1 (a := before)
  omega

theorem EvalOptions.sweepWidth_lt (options : EvalOptions) : options.sweepWidth < 2 ^ 32 :=
  Nat.mod_lt _ (by decide)

theorem EvalOptions.sweepWidth_pos {options : EvalOptions}
    (width : options.directionsPerSweep < 2 ^ 32) : 0 < options.sweepWidth := by
  rw [sweepWidth, Nat.mod_eq_of_lt (by rw [Nat.one_shiftLeft]; omega)]
  omega

theorem EvalOptions.sweepWidth_eq_zero {options : EvalOptions} :
    options.sweepWidth = 0 ↔ options.directionsPerSweep ≠ 0 ∧ 2 ^ 32 ∣ options.directionsPerSweep := by
  rw [sweepWidth, Nat.one_shiftLeft]
  omega

theorem EvalOptions.tiles {options : EvalOptions}
    (indivisible : 2 ^ 32 ∣ options.directionsPerSweep → options.directionsPerSweep = 0) {colors : Nat}
    (few : colors < 2 ^ 31) : Tiles options.sweepWidth colors := by
  have nonzero : options.sweepWidth ≠ 0 := by
    rw [Ne, sweepWidth_eq_zero]
    rintro ⟨nonzero, divides⟩
    exact nonzero (indivisible divides)
  exact tiles_of_lt (Nat.pos_of_ne_zero nonzero) options.sweepWidth_lt few

namespace ColorSweeps

variable {m : Type → Type} [Monad m] [MonadExceptOf Error m] {α : Type}
  {sweep : List (Seed α) → m (Derivatives α)} {width : Nat} {sweeps : ColorSweeps α}

theorem run_of_isEmpty (done : sweeps.remaining = []) :
    sweeps.run sweep width = pure sweeps.found := by
  rw [run, done]
  rfl

theorem step_of_lt (fits : sweeps.swept + width < 2 ^ 32) :
    sweeps.step sweep width = (do
      let result ← sweep (sweeps.remaining.take width)
      return ⟨sweeps.swept + (sweeps.remaining.take width).length, sweeps.remaining.drop width,
        sweeps.found ++ result.sensitivities⟩) := by
  have counted : ¬ 1 <<< 32 ≤ sweeps.swept + width := by
    rw [Nat.one_shiftLeft]
    omega
  rw [step, if_neg counted]

/-- Sweeps over colors are packed sweeps, as long as the ends of all sweeps can be counted. -/
theorem run_eq_packed [LawfulMonad m] (sweep : List (Seed α) → m (Derivatives α)) {rest : Nat}
    (sweeps : ColorSweeps α)
    (fits : ∀ before, before * (rest + 1) < sweeps.remaining.length →
      sweeps.swept + before * (rest + 1) + (rest + 1) < 2 ^ 32) :
    sweeps.run sweep (rest + 1) = (do
      let others ← Session.packed sweep rest sweeps.remaining
      return sweeps.found ++ others) := by
  induction sweeps using run.induct with
  | case1 sweeps done =>
      rw [List.isEmpty_iff] at done
      rw [run_of_isEmpty done, done]
      simp [Session.packed, pieces]
  | case2 sweeps unfinished ih =>
      rcases sweeps with ⟨swept, _ | ⟨seed, others⟩, found⟩
      · simp at unfinished
      have first := fits 0 (by simp)
      rw [run, if_neg unfinished, step_of_lt (by simpa using first)]
      simp only [bind_assoc, pure_bind, Session.packed, pieces, List.mapM_cons, List.take_succ_cons,
        List.drop_succ_cons, List.length_drop, List.length_cons, List.flatMap_cons]
      refine bind_congr fun result => ?_
      rw [if_pos (by omega), ih _ (by simp only [List.length_drop, List.length_cons]; omega)]
      · simp only [Session.packed, bind_assoc, pure_bind, List.append_assoc]
      · intro before inside
        simp only [List.length_drop, List.length_cons, List.length_take] at inside fits ⊢
        have later := fits (before + 1) (by rw [Nat.succ_mul]; omega)
        rw [Nat.succ_mul] at later
        omega

/-! ### Sweeps that do not tile the colors -/

/-- The sweeps after some turns of the loop, whether or not colors are left. -/
def turns (sweep : List (Seed α) → m (Derivatives α)) (width : Nat) :
    Nat → ColorSweeps α → m (ColorSweeps α)
  | 0, sweeps => return sweeps
  | count + 1, sweeps => do turns sweep width count (← sweeps.step sweep width)

section Pure

variable {sweep : List (Seed α) → Except Error (Derivatives α)} {sweeps : ColorSweeps α}
  {values : List (List α)} {moved : Seed α → Seed α}

theorem step_eq_ok (succeeds : sweep (sweeps.remaining.take width) =
      .ok ⟨values, (sweeps.remaining.take width).map moved⟩)
    (fits : sweeps.swept + width < 2 ^ 32) :
    sweeps.step sweep width =
      .ok ⟨sweeps.swept + (sweeps.remaining.take width).length, sweeps.remaining.drop width,
        sweeps.found ++ (sweeps.remaining.take width).map moved⟩ := by
  rw [step_of_lt fits, succeeds]
  rfl

theorem step_zero (succeeds : sweep [] = .ok ⟨values, []⟩) (counted : sweeps.swept < 2 ^ 32) :
    sweeps.step sweep 0 = .ok sweeps := by
  rw [step_of_lt counted, List.take_zero, succeeds]
  simp [pure, Except.pure]

theorem turns_zero (succeeds : sweep [] = .ok ⟨values, []⟩) (counted : sweeps.swept < 2 ^ 32)
    (count : Nat) : turns sweep 0 count sweeps = .ok sweeps := by
  induction count with
  | zero => rfl
  | succ count ih => rw [turns, step_zero succeeds counted, ok_bind, ih]

theorem run_zero (succeeds : sweep [] = .ok ⟨values, []⟩) (counted : sweeps.swept < 2 ^ 32)
    (unfinished : sweeps.remaining ≠ []) :
    sweeps.run sweep 0 = .error (.violation .noProgress) := by
  rw [run, if_neg (by simpa using unfinished), step_zero succeeds counted, ok_bind,
    if_neg (Nat.lt_irrefl _)]
  rfl

/-- Sweeps stop at the first one whose end cannot be counted. -/
theorem run_eq_sizeOverflow (positive : 0 < width) {before : Nat}
    (succeeds : ∀ seeds, (∀ seed ∈ seeds, seed ∈ sweeps.remaining) →
      sweep seeds = .ok ⟨values, seeds.map moved⟩)
    (inside : before * width < sweeps.remaining.length)
    (exceeds : 2 ^ 32 ≤ sweeps.swept + before * width + width) :
    sweeps.run sweep width = .error (.violation .sizeOverflow) := by
  induction sweeps using run.induct generalizing before with
  | case1 sweeps done =>
      rw [List.isEmpty_iff] at done
      simp [done] at inside
  | case2 sweeps unfinished ih =>
      rw [run, if_neg unfinished]
      by_cases fits : sweeps.swept + width < 2 ^ 32
      · -- This sweep can be counted, so it is not the one that cannot.
        cases before with
        | zero => omega
        | succ before =>
            rw [Nat.succ_mul] at inside exceeds
            rw [step_eq_ok (succeeds _ fun seed => List.mem_of_mem_take) fits, ok_bind,
              if_pos (by simp only [List.length_drop]; omega)]
            refine @ih _ ?_ before ?_ ?_ ?_
            · simp only [List.length_drop]
              omega
            · exact fun seeds within => succeeds seeds fun seed member =>
                List.mem_of_mem_drop (within seed member)
            · simp only [List.length_drop]
              omega
            · simp only [List.length_take]
              omega
      · have counted : 1 <<< 32 ≤ sweeps.swept + width := by
          rw [Nat.one_shiftLeft]
          omega
        rw [step, if_pos counted]
        rfl

end Pure

end ColorSweeps

namespace Session

variable {m : Type → Type} [Monad m] [LawfulMonad m] [MonadExceptOf Error m] {α : Type}

@[simp] theorem length_unitSeeds (session : Session α) (blocks : List Block) (index : Nat)
    (chosen : List (List Nat)) :
    (session.unitSeeds blocks index chosen).length = chosen.length :=
  List.length_map _

theorem sweepColors_eq_packed (session : Session α) (sweep : List (Seed α) → m (Derivatives α))
    {seeds : List (Seed α)} (tiles : Tiles session.options.sweepWidth seeds.length) :
    session.sweepColors sweep seeds = packed sweep (session.options.sweepWidth - 1) seeds := by
  obtain ⟨rest, width⟩ := Nat.exists_eq_succ_of_ne_zero (Nat.ne_of_gt tiles.1)
  rw [width] at tiles
  rw [sweepColors, width, ColorSweeps.run_eq_packed sweep _ (by simpa using tiles.2)]
  simp

end Session

end Autodiff
