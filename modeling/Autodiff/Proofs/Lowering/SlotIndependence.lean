import Autodiff.Proofs.Lowering.Accounting
import Autodiff.Proofs.Lowering.SlotReuse
import Autodiff.Proofs.Session.LinkedTapes

/-!
# Slot reuse cannot be observed

The same program over values becomes two tapes, one with a slot of its own for every value and one
that reuses slots. They are linked (`Tape.LinkedBy`), so every sweep over one equals the sweep over the
other, whatever the elements are and whatever earlier calls left in the working arrays.
-/

namespace Autodiff

namespace Graph

/-- Output blocks with related slots: both lists exist or both fail alike. -/
theorem outputBlocks_related (graph : Graph) {related : List Nat → List Nat → Prop}
    {firsts seconds : List (List Nat)} (slots : List.Forall₂ related firsts seconds)
    (outputs : List Handle) (index : Nat) :
    (∃ cause, graph.outputBlocks index outputs firsts = .error cause ∧
        graph.outputBlocks index outputs seconds = .error cause) ∨
      ∃ blocks blocks', graph.outputBlocks index outputs firsts = .ok blocks ∧
        graph.outputBlocks index outputs seconds = .ok blocks' ∧
        List.Forall₂ (fun left right => related left.slots right.slots) blocks blocks' := by
  induction slots generalizing outputs index with
  | nil => exact .inr ⟨[], [], by cases outputs <;> rfl, by cases outputs <;> rfl, .nil⟩
  | cons head _ ih =>
      rcases outputs with _ | ⟨output, outputs⟩
      · exact .inr ⟨[], [], rfl, rfl, .nil⟩
      · simp only [outputBlocks]
        rcases graph.entry output with cause | entry
        · exact .inl ⟨cause, rfl, rfl⟩
        · simp only [ok_bind]
          rcases ih outputs (index + 1) with ⟨cause, first, second⟩ | ⟨blocks, blocks', first,
            second, alike⟩
          · exact .inl ⟨cause, by rw [first]; rfl, by rw [second]; rfl⟩
          · exact .inr ⟨_, _, by rw [first]; rfl, by rw [second]; rfl, .cons head alike⟩

/-- The program over values as a tape in which every value is its own slot. -/
theorem assignSlots_linked {numInputs : Nat} {program : List Instruction}
    {values : List (List Nat)} {blocks outputBlocks outputBlocks' : List Block}
    {before after : Link}
    (allocated : (reuseSlots numInputs program values).LinkedTo numInputs program values before
      after)
    (inputs : blocks.flatMap Block.slots = List.range numInputs)
    (outputs : after.Blocks outputBlocks outputBlocks') :
    Tape.LinkedBy before after
      ⟨program, numInputs + program.length, blocks, outputBlocks⟩
      ⟨(reuseSlots numInputs program values).instructions,
        (reuseSlots numInputs program values).numSlots, blocks, outputBlocks'⟩ := by
  refine ⟨allocated.instructions, rfl, ?_, ?_, outputs, allocated.matching, allocated.inside⟩
  · intro block blockMem slot slotMem
    have below : slot ∈ List.range numInputs :=
      inputs ▸ List.mem_flatMap.mpr ⟨block, blockMem, slotMem⟩
    have inputsFit := allocated.inputsFit
    rw [List.mem_range] at below
    exact ⟨by simp only; omega, by simp only; omega⟩
  · intro value slot isLinked
    rcases allocated.before_eq isLinked with ⟨same, below⟩
    refine ⟨same, List.mem_flatMap.mp ?_⟩
    rw [inputs, List.mem_range]
    exact below

theorem build_linked (graph : Graph) (share : Bool) (inputs outputs : List Handle) :
    (∃ cause, graph.build ⟨false, share⟩ inputs outputs = .error cause ∧
        graph.build ⟨true, share⟩ inputs outputs = .error cause) ∨
      ∃ plain reusing before after, graph.build ⟨false, share⟩ inputs outputs = .ok plain ∧
        graph.build ⟨true, share⟩ inputs outputs = .ok reusing ∧
        Tape.LinkedBy before after plain reusing := by
  rcases ran : (graph.emitAll share inputs outputs).run
      { values := Array.replicate graph.size none } with cause | ⟨⟨blocks, values⟩, emission⟩
  · exact .inl ⟨cause, by simp [build, ran], by simp [build, ran]⟩
  · have emitted := (emitAll_emitted ran).1
    rcases prune_pruned emitted.accounts.consistent.numbered emitted.outputs_lt with
      ⟨live, number, pruned⟩
    let program := (prune emission.numInputs emission.instructions.toList values).1
    let kept := (prune emission.numInputs emission.instructions.toList values).2
    rcases reuseSlots_linked pruned.numbered pruned.outputs_lt with ⟨before, after, allocated⟩
    have plainBuilt : graph.build ⟨false, share⟩ inputs outputs =
        graph.tapeOf blocks outputs ⟨program, kept, emission.numInputs + program.length⟩ := by
      simp only [build, ran, ok_bind, assignSlots, Bool.false_eq_true, if_false]
      rfl
    have reusingBuilt : graph.build ⟨true, share⟩ inputs outputs =
        graph.tapeOf blocks outputs (reuseSlots emission.numInputs program kept) := by
      simp only [build, ran, ok_bind, assignSlots, if_true]
      rfl
    rw [plainBuilt, reusingBuilt, tapeOf, tapeOf]
    rcases graph.outputBlocks_related allocated.outputs outputs 0 with
      ⟨cause, first, second⟩ | ⟨outputBlocks, outputBlocks', first, second, alike⟩
    · exact .inl ⟨cause, by rw [first]; rfl, by rw [second]; rfl⟩
    · exact .inr ⟨_, _, before, after, by rw [first]; rfl, by rw [second]; rfl,
        assignSlots_linked allocated emitted.inputSlots alike⟩

/-- Slot reuse cannot be observed. The two builds fail alike, or their tapes answer every call alike:
for all elements, all settings, all points and all seeds, whatever the working arrays hold, and for
the dependency pattern of every pair of blocks in both directions. -/
theorem build_reuse_unobservable (graph : Graph) (share : Bool) (inputs outputs : List Handle) :
    (∃ cause, graph.build ⟨false, share⟩ inputs outputs = .error cause ∧
        graph.build ⟨true, share⟩ inputs outputs = .error cause) ∨
      ∃ plain reusing, graph.build ⟨false, share⟩ inputs outputs = .ok plain ∧
        graph.build ⟨true, share⟩ inputs outputs = .ok reusing ∧
        (∀ (α : Type) (options : EvalOptions) (algebra : Algebra (Except Error) α) (one : α)
          (plainWork : Vector α plain.numSlots) (reusingWork : Vector α reusing.numSlots)
          (point : List (List α)) (seeds : List (Seed α)),
          let first := Session.holding plain options algebra one plainWork
          let second := Session.holding reusing options algebra one reusingWork
          (first.perform (Session.evaluate point)).1 =
              (second.perform (Session.evaluate point)).1 ∧
            (first.perform (Session.forwardAd point seeds)).1 =
              (second.perform (Session.forwardAd point seeds)).1 ∧
            (first.perform (Session.reverseAd point seeds)).1 =
              (second.perform (Session.reverseAd point seeds)).1) ∧
        ∀ (iind oind : Nat) (direction : Direction),
          plain.jacobianPatternIn iind oind direction =
            reusing.jacobianPatternIn iind oind direction := by
  rcases graph.build_linked share inputs outputs with failed | ⟨plain, reusing, before, after,
    plainBuilt, reusingBuilt, linked⟩
  · exact .inl failed
  · refine .inr ⟨plain, reusing, plainBuilt, reusingBuilt, ?_, linked.jacobianPatternIn_eq⟩
    intro α options algebra one plainWork reusingWork point seeds
    exact ⟨linked.evaluate_eq options algebra one plainWork reusingWork point,
      linked.forwardAd_eq options algebra one plainWork reusingWork point seeds,
      linked.reverseAd_eq options algebra one plainWork reusingWork point seeds⟩

end Graph

end Autodiff
