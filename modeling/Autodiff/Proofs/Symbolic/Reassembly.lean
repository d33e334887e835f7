import Autodiff.Proofs.Symbolic.Assembly
import Autodiff.Proofs.Symbolic.Evaluation
import Autodiff.Proofs.Symbolic.Operations

/-!
# Taking apart and putting together are inverse

A matrix that is put together from 1x1 expressions has these as its stored entries, and a matrix that is put together
from its own stored entries is the same matrix (`assemble_inverse_nonzeros`). The one limit is memory: the column that
is being put together is a buffer of handles, so with more rows than a buffer can have nothing is assembled.
-/

namespace Autodiff

namespace Succeeds

variable {α : Type} {graph : Graph} {sound : graph.Sound} {call : GraphM α} {property : World → α → Prop}
  (succeeds : Succeeds ⟨⟨graph, []⟩, sound⟩ call property)
include succeeds

theorem exists_ok : ∃ value after, call.run.run graph = (.ok value, after) := by
  rcases succeeds with ⟨value, final, _, ran, _⟩
  exact ⟨value, final.graph, ran⟩

/-- Graph operations fold nothing, so what they lead to holds without a proviso. -/
theorem after_ok {value : α} {after : Graph} (ran : call.run.run graph = (.ok value, after)) :
    ∃ afterSound : after.Sound, property ⟨⟨after, []⟩, afterSound⟩ value := by
  rcases succeeds with ⟨sameValue, ⟨⟨sameAfter, foldings⟩, afterSound⟩, tracedRan, ranAgain, _, holds⟩
  cases ran.symm.trans ranAgain
  have unfolded : foldings = [] := by
    rw [TracedM.run_liftM] at tracedRan
    exact (congrArg (·.2.foldings) tracedRan).symm
  subst unfolded
  exact ⟨afterSound, holds⟩

end Succeeds

namespace Graph

variable {graph between after : Graph} {handle operand : Handle} {pattern : Pattern} {entries : List Handle}

section Values

variable {K : Type} [Zero K] (meaning : Meaning K) (assignment : Handle → List K)

theorem storedValues_eq_iff (known : graph.pattern handle = .ok pattern) {values : List K} :
    graph.storedValues meaning assignment handle = values ↔
      (graph.denote meaning assignment handle).Holds pattern values := by
  rw [storedValues_eq known, ← List.forall₂_eq_eq_eq, List.forall₂_map_left_iff]
  rfl

omit [Zero K] in
theorem exact_unfolded (sound : graph.Sound) :
    Reading.Exact ⟨meaning, assignment, .all⟩ ⟨⟨graph, []⟩, sound⟩ :=
  fun _ member => absurd member List.not_mem_nil

theorem Sound.succeeds_nonzeros (sound : graph.Sound) (known : graph.pattern operand = .ok pattern) :
    Succeeds ⟨⟨graph, []⟩, sound⟩ (GraphM.nonzeros operand) fun later entries =>
      List.Forall₂ (Reading.Denotes ⟨meaning, assignment, .all⟩ later) entries
        (graph.storedValues meaning assignment operand) := by
  let start : World := ⟨⟨graph, []⟩, sound⟩
  have startKnown : start.graph.pattern operand = .ok pattern := known
  exact Reading.succeeds_nonzeros startKnown (sound.wellFormed.spelled_all known)

/-- Taking apart gives one 1x1 expression for each stored entry, with its value. -/
theorem Sound.nonzeros_ok (sound : graph.Sound) (known : graph.pattern operand = .ok pattern)
    (ran : (GraphM.nonzeros operand).run.run graph = (.ok entries, after)) :
    after.Sound ∧ entries.length = pattern.nnz ∧
      (∀ entry ∈ entries, after.pattern entry = .ok .scalar) ∧
      entries.map (after.value meaning assignment) = graph.storedValues meaning assignment operand := by
  rcases (sound.succeeds_nonzeros meaning assignment known).after_ok ran with ⟨afterSound, denotes⟩
  refine ⟨afterSound, ?_, ?_, ?_⟩
  · simpa [storedValues_eq known, pattern.length_positions] using denotes.length_eq
  · intro entry member
    rcases exists_related denotes member with ⟨value, _, denoted⟩
    exact denoted.isScalar
  · rw [← List.forall₂_eq_eq_eq, List.forall₂_map_left_iff]
    exact denotes.imp fun entry value denoted => denoted.value_eq (exact_unfolded meaning assignment afterSound)

end Values

/-! ## Putting together -/

/-- A pattern and 1x1 expressions for its stored entries, with columns that fit in a buffer. -/
structure Assembles (graph : Graph) (pattern : Pattern) (entries : List Handle) : Prop where
  wellFormed : pattern.WellFormed
  fits : pattern.ncol = 0 ∨ pattern.nrow ≤ maxBuffer
  sameLength : entries.length = pattern.nnz
  scalars : ∀ entry ∈ entries, graph.pattern entry = .ok .scalar

namespace Assembles

variable {K : Type} [Zero K] (meaning : Meaning K) (assignment : Handle → List K)
  (assembles : graph.Assembles pattern entries)
include assembles

theorem succeeds (sound : graph.Sound) :
    Succeeds ⟨⟨graph, []⟩, sound⟩ (GraphM.assemble pattern entries) fun world handle =>
      Reading.Shows ⟨meaning, assignment, .all⟩ world handle pattern.shape
        (fun row column => (row, column) ∈ pattern.positions)
        fun row column => (pattern.scatter (entries.map (graph.value meaning assignment))).get row column := by
  let start : World := ⟨⟨graph, []⟩, sound⟩
  have scalars : ∀ entry ∈ entries, start.graph.pattern entry = .ok .scalar := assembles.scalars
  have denotes : List.Forall₂ (Reading.Denotes ⟨meaning, assignment, .all⟩ start) entries
      (entries.map (graph.value meaning assignment)) := by
    rw [List.forall₂_map_right_iff, List.forall₂_same]
    exact fun entry member => Reading.denotes_value (scalars entry member)
  exact Reading.succeeds_assemble assembles.wellFormed denotes assembles.sameLength assembles.fits

theorem assemble_ok (sound : graph.Sound)
    (ran : (GraphM.assemble pattern entries).run.run graph = (.ok handle, after)) :
    after.pattern handle = .ok pattern ∧
      after.storedValues meaning assignment handle = entries.map (graph.value meaning assignment) ∧
      after.denote meaning assignment handle = pattern.scatter (entries.map (graph.value meaning assignment)) := by
  rcases (assembles.succeeds meaning assignment sound).after_ok ran with ⟨afterSound, shown⟩
  have known := shown.pattern_eq assembles.wellFormed
  have sameShape := afterSound.wellFormed.shape_denote meaning assignment known
  have isScatter : after.denote meaning assignment handle =
      pattern.scatter (entries.map (graph.value meaning assignment)) := by
    refine Dense.ext_get (congrArg Prod.fst sameShape) (congrArg Prod.snd sameShape) ?_
    intro row column rowInside columnInside
    apply shown.get_eq (exact_unfolded meaning assignment afterSound) row column
    · exact congrArg Prod.fst sameShape ▸ rowInside
    · exact congrArg Prod.snd sameShape ▸ columnInside
  refine ⟨known, ?_, isScatter⟩
  rw [storedValues_eq_iff meaning assignment known, isScatter]
  apply assembles.wellFormed.scatter_holds
  rw [List.length_map, assembles.sameLength]

end Assembles

theorem run_assemble_of_tall (graph : Graph) (wide : pattern.ncol ≠ 0) (tall : maxBuffer < pattern.nrow)
    (sameLength : entries.length = pattern.nnz) :
    (GraphM.assemble pattern entries).run.run graph = (.error (.violation .sizeOverflow), graph) := by
  rcases Nat.exists_eq_succ_of_ne_zero wide with ⟨count, isCount⟩
  have refused : (GraphM.assembleColumn pattern entries.toArray 0).run.run graph =
      (.error (.violation .sizeOverflow), graph) := by
    apply GraphM.run_bind_of_error
    exact (GraphM.run_lift _ graph).trans (congrArg (·, graph) (if_neg (Nat.not_le.mpr tall)))
  simp only [GraphM.assemble, sameLength, ne_eq, not_true_eq_false, if_false]
  apply GraphM.run_bind_of_error
  rw [isCount, List.range_succ_eq_map, List.mapM_cons]
  exact GraphM.run_bind_of_error refused _

/-- Putting a matrix together from 1x1 expressions and taking it apart are inverse. In every graph that operations
lead to, entries put together for a pattern give a matrix with this pattern whose stored entries are, one by one and
whatever the symbols stand for, what the entries are; and every matrix is put together again from its stored entries:
with the same pattern, the same stored entries and, if the zero rules hold, the same denotation. With more rows than a
buffer can have, and a column to put them in, assembling is refused. -/
theorem Evolves.assemble_inverse_nonzeros (evolves : initial.Evolves graph) :
    (∀ pattern entries, graph.Assembles pattern entries → ∃ handle after,
      (GraphM.assemble pattern entries).run.run graph = (.ok handle, after) ∧ after.pattern handle = .ok pattern ∧
      ∀ {K : Type} [Zero K] (meaning : Meaning K) (assignment : Handle → List K),
        after.storedValues meaning assignment handle = entries.map (graph.value meaning assignment) ∧
        after.denote meaning assignment handle = pattern.scatter (entries.map (graph.value meaning assignment))) ∧
    (∀ operand pattern, graph.pattern operand = .ok pattern → (pattern.ncol = 0 ∨ pattern.nrow ≤ maxBuffer) →
      ∃ entries between handle after, (GraphM.nonzeros operand).run.run graph = (.ok entries, between) ∧
        (GraphM.assemble pattern entries).run.run between = (.ok handle, after) ∧
        after.pattern handle = .ok pattern ∧
        (∀ {K : Type} [Zero K] (meaning : Meaning K) (assignment : Handle → List K),
          after.storedValues meaning assignment handle = graph.storedValues meaning assignment operand) ∧
        ∀ {K : Type} [Zero K] (meaning : Interpretation K) (assignment : Handle → List K),
          after.denote meaning assignment handle = graph.denote meaning assignment operand) ∧
    ∀ (pattern : Pattern) (entries : List Handle), pattern.ncol ≠ 0 → maxBuffer < pattern.nrow →
      entries.length = pattern.nnz →
      (GraphM.assemble pattern entries).run.run graph = (.error (.violation .sizeOverflow), graph) := by
  have sound := evolves.of_lasts lasts_sound sound_initial
  -- The runs do not depend on a meaning: any one shows that they succeed.
  let vanishing : Meaning Nat := ⟨fun _ => 0, fun _ _ => 0, fun _ _ _ => 0⟩
  refine ⟨?_, ?_, fun pattern entries => run_assemble_of_tall graph⟩
  · intro pattern entries assembles
    rcases (assembles.succeeds vanishing (fun _ => []) sound).exists_ok with ⟨handle, after, ran⟩
    refine ⟨handle, after, ran, (assembles.assemble_ok vanishing (fun _ => []) sound ran).1, ?_⟩
    exact fun meaning assignment => (assembles.assemble_ok meaning assignment sound ran).2
  · intro operand pattern known fits
    have wellFormed := sound.wellFormed
    rcases (sound.succeeds_nonzeros vanishing (fun _ => []) known).exists_ok with ⟨entries, between, taken⟩
    rcases sound.nonzeros_ok vanishing (fun _ => []) known taken with ⟨betweenSound, sameLength, scalars, _⟩
    have assembles : between.Assembles pattern entries := ⟨wellFormed.pattern known, fits, sameLength, scalars⟩
    rcases (assembles.succeeds vanishing (fun _ => []) betweenSound).exists_ok with ⟨handle, after, ran⟩
    have put {K : Type} [Zero K] (meaning : Meaning K) (assignment : Handle → List K) :=
      assembles.assemble_ok meaning assignment betweenSound ran
    have sameValues {K : Type} [Zero K] (meaning : Meaning K) (assignment : Handle → List K) :=
      (sound.nonzeros_ok meaning assignment known taken).2.2.2
    refine ⟨entries, between, handle, after, taken, ran, (put vanishing fun _ => []).1, ?_, ?_⟩
    · intro K _ meaning assignment
      exact (put meaning assignment).2.1.trans (sameValues meaning assignment)
    · intro K _ meaning assignment
      rw [(put meaning assignment).2.2, sameValues]
      exact (wellFormed.pattern known).scatter_eq (wellFormed.denote_supported meaning assignment known)
        ((storedValues_eq_iff _ _ known).mp rfl)

/-- A symbol that stands for a matrix with two stored entries. -/
def antidiagonal : Graph :=
  (GraphM.symbol "x" ⟨2, [[1], [0]]⟩).graphAfter initial

/-- A matrix with an empty column, and a symbol with as many entries. -/
theorem antidiagonal_assemble_inverse :
    initial.Evolves antidiagonal ∧ antidiagonal.Assembles ⟨3, [[0, 2], []]⟩ [.one, .zero] ∧
    antidiagonal.pattern ⟨initial.size⟩ = .ok ⟨2, [[1], [0]]⟩ ∧
    (∃ handle after, (GraphM.assemble ⟨3, [[0, 2], []]⟩ [.one, .zero]).run.run antidiagonal = (.ok handle, after) ∧
      after.pattern handle = .ok ⟨3, [[0, 2], []]⟩ ∧
      ∀ (meaning : Meaning Nat) (assignment : Handle → List Nat),
        after.storedValues meaning assignment handle = [antidiagonal.value meaning assignment .one,
          antidiagonal.value meaning assignment .zero]) ∧
    ∃ entries between handle after,
      (GraphM.nonzeros ⟨initial.size⟩).run.run antidiagonal = (.ok entries, between) ∧
      (GraphM.assemble ⟨2, [[1], [0]]⟩ entries).run.run between = (.ok handle, after) ∧
      ∀ (meaning : Interpretation Nat) (assignment : Handle → List Nat),
        after.denote meaning assignment handle = antidiagonal.denote meaning assignment ⟨initial.size⟩ := by
  have wellFormed : Pattern.WellFormed ⟨2, [[1], [0]]⟩ := by decide
  have evolves : initial.Evolves antidiagonal := .after .refl (.construct (.symbol "x" wellFormed))
  have grows : initial.Extends antidiagonal := extends_appendSymbol initial "x" _
  have known : antidiagonal.pattern ⟨initial.size⟩ = .ok ⟨2, [[1], [0]]⟩ := by
    exact pattern_eq_ok.mpr ⟨_, Array.getElem?_push_size, rfl⟩
  have assembles : antidiagonal.Assembles ⟨3, [[0, 2], []]⟩ [.one, .zero] := by
    refine ⟨by decide, .inr (by decide), rfl, ?_⟩
    simp [(grows sound_initial.one).pattern_eq, (grows sound_initial.zero).pattern_eq]
  rcases evolves.assemble_inverse_nonzeros with ⟨puts, takes, _⟩
  rcases puts _ _ assembles with ⟨handle, after, ran, isKnown, values⟩
  rcases takes _ _ known (.inr (by decide)) with ⟨entries, between, whole, final, taken, put, _, _, same⟩
  exact ⟨evolves, assembles, known, ⟨handle, after, ran, isKnown, fun meaning assignment => (values meaning assignment).1⟩,
    entries, between, whole, final, taken, put, same⟩

/-- A column of zeros that is too tall for a buffer cannot be put together. -/
theorem tall_column_refused : (Pattern.blank maxWord 1).WellFormed ∧ (Pattern.blank maxWord 1).nnz = 0 ∧
    (GraphM.assemble (.blank maxWord 1) []).run.run initial = (.error (.violation .sizeOverflow), initial) :=
  ⟨by decide, by decide, run_assemble_of_tall initial (by decide) (by decide) (by decide)⟩

end Graph

end Autodiff
