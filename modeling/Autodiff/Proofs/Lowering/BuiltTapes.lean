import Autodiff.Proofs.Lowering.Correctness

/-!
# Built tapes are valid

A tape that is built with slot reuse is linked to the tape without it. The slots of either tape that have a
partner are then written before they are read, so the tape is linked to itself through them, which is what
validity asks for. At linked slots both instruction lists compute the same, so the slots of an output hold the
stored entries of the matrix that the output denotes, with any options.
-/

namespace Autodiff

namespace Link

/-- The slots on the right that have a partner, each linked to itself. -/
def onRight (link : Link) : Link :=
  fun left right => left = right ∧ ∃ partner, link partner right

theorem onRight_matching (link : Link) : link.onRight.Matching := by
  rintro left _ left' _ ⟨rfl, _⟩ ⟨rfl, _⟩
  rfl

theorem forall₂_onRight {link : Link} {lefts rights : List Nat} (linked : List.Forall₂ link lefts rights) :
    List.Forall₂ link.onRight rights rights := by
  refine List.forall₂_same.mpr fun slot member => ⟨rfl, ?_⟩
  rcases exists_related linked.flip member with ⟨partner, _, isLinked⟩
  exact ⟨partner, isLinked⟩

def converse (link : Link) : Link :=
  fun left right => link right left

end Link

section Linked

variable {firstSize secondSize : Nat} {before after : Link} {firsts seconds : List Instruction}

theorem Linked.onRight (linked : Linked firstSize secondSize before firsts seconds after) :
    Linked secondSize secondSize before.onRight seconds seconds after.onRight := by
  induction linked with
  | nil link => exact .nil _
  | cons step _ ih =>
      refine .cons ⟨rfl, rfl, Link.forall₂_onRight step.operands, Link.onRight_matching _, ?_,
        step.secondInside, step.secondInside, ?_⟩ ih
      · rintro slot _ ⟨rfl, partner, isLinked⟩
        exact ⟨(step.inside isLinked).2, (step.inside isLinked).2⟩
      · rintro slot _ ⟨rfl, partner, isLinked⟩
        rcases step.kept isLinked with ⟨_, isOut⟩ | ⟨wasLinked, _, notOut⟩
        · exact .inl ⟨isOut, isOut⟩
        · exact .inr ⟨⟨rfl, partner, wasLinked⟩, notOut, notOut⟩

theorem Linked.converse (linked : Linked firstSize secondSize before firsts seconds after) :
    Linked secondSize firstSize before.converse seconds firsts after.converse := by
  induction linked with
  | nil link => exact .nil _
  | cons step _ ih =>
      refine .cons ⟨step.op_eq.symm, step.literal_eq.symm, step.operands.flip, ?_, ?_,
        step.secondInside, step.firstInside, ?_⟩ ih
      · intro left right left' right' isLinked isLinked'
        exact (step.matching isLinked isLinked').symm
      · intro left right isLinked
        exact (step.inside isLinked).symm
      · intro left right isLinked
        rcases step.kept isLinked with ⟨isFirst, isSecond⟩ | ⟨wasLinked, notFirst, notSecond⟩
        · exact .inl ⟨isSecond, isFirst⟩
        · exact .inr ⟨wasLinked, notSecond, notFirst⟩

theorem Link.Step.result_eq {first second : Instruction}
    (step : Link.Step firstSize secondSize before first second after) {K : Type} (meaning : Meaning K)
    {left right : Nat → K} (same : ∀ ⦃slot partner⦄, before slot partner → left slot = right partner) :
    first.result meaning left = second.result meaning right := by
  cases operation : first.op with
  | const => simp [Instruction.result, step.op_eq, step.literal_eq, operation]
  | unary op => simp [Instruction.result, step.op_eq, operation, same (step.fst_of_unary operation)]
  | binary op =>
      rcases step.operands_of_binary operation with ⟨linkedFst, linkedSnd⟩
      simp [Instruction.result, step.op_eq, operation, same linkedFst, same linkedSnd]

theorem Linked.executeAll_eq (linked : Linked firstSize secondSize before firsts seconds after)
    {K : Type} (meaning : Meaning K) {left right : Nat → K}
    (same : ∀ ⦃slot partner⦄, before slot partner → left slot = right partner) :
    ∀ ⦃slot partner⦄, after slot partner →
      executeAll meaning firsts left slot = executeAll meaning seconds right partner := by
  induction linked generalizing left right with
  | nil link => exact same
  | cons step _ ih =>
      refine ih fun slot partner isLinked => ?_
      simp only [Instruction.execute]
      rcases step.kept isLinked with ⟨rfl, rfl⟩ | ⟨wasLinked, notFirst, notSecond⟩
      · rw [Function.update_self, Function.update_self]
        exact step.result_eq meaning same
      · rw [Function.update_of_ne notFirst, Function.update_of_ne notSecond]
        exact same wasLinked

end Linked

namespace Tape.LinkedBy

variable {before after : Link} {first second : Tape}

theorem onRight (linked : LinkedBy before after first second) :
    LinkedBy before.onRight after.onRight second second where
  instructions := linked.instructions.onRight
  inputs := rfl
  inputsInside block member slot slotMem := by
    have inside := linked.inputsInside block (linked.inputs ▸ member) slot slotMem
    exact ⟨inside.2, inside.2⟩
  before_eq := by
    rintro slot _ ⟨rfl, partner, isLinked⟩
    rcases linked.before_eq isLinked with ⟨rfl, isInput⟩
    exact ⟨rfl, linked.inputs ▸ isInput⟩
  outputs := by
    refine List.forall₂_same.mpr fun block member => ?_
    rcases exists_related linked.outputs.flip member with ⟨_, _, slots⟩
    exact Link.forall₂_onRight slots
  matching := Link.onRight_matching _
  inside := by
    rintro slot _ ⟨rfl, partner, isLinked⟩
    exact ⟨(linked.inside isLinked).2, (linked.inside isLinked).2⟩

theorem converse (linked : LinkedBy before after first second) :
    LinkedBy before.converse after.converse second first where
  instructions := linked.instructions.converse
  inputs := linked.inputs.symm
  inputsInside block member slot slotMem :=
    (linked.inputsInside block (linked.inputs ▸ member) slot slotMem).symm
  before_eq := by
    intro left right isLinked
    rcases linked.before_eq isLinked with ⟨rfl, isInput⟩
    exact ⟨rfl, linked.inputs ▸ isInput⟩
  outputs := linked.outputs.flip.imp fun _ _ slots => slots.flip
  matching _ _ _ _ isLinked isLinked' := (linked.matching isLinked isLinked').symm
  inside _ _ isLinked := (linked.inside isLinked).symm

/-- A tape is valid if it is linked to another one and its inputs fill the first slots. -/
theorem valid_right (linked : LinkedBy before after first second) {filled : Nat}
    (slots : second.inputs.flatMap Block.slots = List.range filled) : second.Valid := by
  refine ⟨⟨filled, ?_, slots⟩, _, _, linked.onRight⟩
  rcases filled with _ | last
  · exact Nat.zero_le _
  · have member : last ∈ second.inputs.flatMap Block.slots := by simp [slots]
    rcases List.mem_flatMap.mp member with ⟨block, blockMem, slotMem⟩
    exact (linked.inputsInside block (linked.inputs ▸ blockMem) last slotMem).2

end Tape.LinkedBy

namespace Graph

variable {graph : Graph} {inputs outputs : List Handle} {options : BuildOptions} {tape : Tape}

/-- A built tape, with the tape that the same problem gives without slot reuse. -/
theorem exists_linked_plain (built : graph.build options inputs outputs = .ok tape) :
    ∃ plain before after, graph.build ⟨false, options.shareValues⟩ inputs outputs = .ok plain ∧
      Tape.LinkedBy before after plain tape := by
  rcases options with ⟨_ | _, share⟩ <;>
  rcases graph.build_linked share inputs outputs with ⟨cause, failed, reuseFailed⟩ | ⟨plain, reusing,
    before, after, plainBuilt, reusingBuilt, linked⟩
  · cases failed.symm.trans built
  · cases plainBuilt.symm.trans built
    exact ⟨_, _, _, plainBuilt, linked.converse.onRight⟩
  · cases reuseFailed.symm.trans built
  · cases reusingBuilt.symm.trans built
    exact ⟨plain, before, after, plainBuilt, linked⟩

theorem build_valid (built : graph.build options inputs outputs = .ok tape) :
    tape.Valid ∧ List.Forall₂ (fun input block => graph.pattern input = .ok block.pattern ∧
      block.slots.length = block.pattern.nnz) inputs tape.inputs := by
  rcases exists_linked_plain built with ⟨plain, before, after, plainBuilt, linked⟩
  rcases exists_compiles plainBuilt with ⟨emission, ⟨numbers, emitted⟩, _, _⟩
  have inputs := linked.inputs
  exact ⟨linked.valid_right (inputs ▸ emitted.inputSlots), inputs ▸ emitted.declared.forall₂⟩

/-- The instructions of a built tape compute the stored entries of the matrices that its outputs denote. -/
theorem WellFormed.build_holds {K : Type} [Zero K] (wellFormed : graph.WellFormed)
    (built : graph.build options inputs outputs = .ok tape) (meaning : Interpretation K)
    {point : List (List K)} (fits : List.Forall₂ graph.Fits inputs point) {value : Nat → K}
    (loaded : ∀ pair ∈ tape.inputs.zip point, pair.1.slots.map value = pair.2) :
    List.Forall₂ (fun output block => ∃ pattern, graph.pattern output = .ok pattern ∧
      (graph.denote meaning (assignment inputs point) output).Holds pattern
        (block.slots.map (executeAll meaning.toMeaning tape.instructions value)))
      outputs tape.outputs := by
  rcases exists_linked_plain built with ⟨plain, before, after, plainBuilt, linked⟩
  have plainHolds := wellFormed.holds_plain plainBuilt meaning fits (linked.inputs ▸ loaded)
  refine (forall₂_trans plainHolds linked.outputs).imp ?_
  rintro output block ⟨plainBlock, ⟨pattern, isKnown, holds⟩, slots⟩
  refine ⟨pattern, isKnown, ?_⟩
  have same : plainBlock.slots.map (executeAll meaning.toMeaning plain.instructions value) =
      block.slots.map (executeAll meaning.toMeaning tape.instructions value) := by
    rw [← List.forall₂_eq_eq_eq, List.forall₂_map_left_iff, List.forall₂_map_right_iff]
    refine slots.imp fun slot partner isLinked => ?_
    refine linked.instructions.executeAll_eq meaning.toMeaning (fun left right wasLinked => ?_) isLinked
    rw [(linked.before_eq wasLinked).1]
  rwa [same] at holds

end Graph

end Autodiff
