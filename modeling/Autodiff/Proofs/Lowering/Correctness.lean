import Autodiff.Proofs.Lowering.Meaning
import Autodiff.Proofs.Lowering.SlotIndependence
import Mathlib

/-!
# Built tapes compute what expressions denote

The passes are put together here. Post-order reaches the outputs, so they are lowered; the values of
lowered nodes are the stored entries of their denotations; dropping dead instructions keeps the values
of the outputs; the primal sweep computes the values of the remaining program; and a tape that reuses
slots answers like the one that does not.
-/

namespace Autodiff

variable {tape : Tape}

section Evaluate

variable {K : Type} [Zero K] {meaning : Interpretation K} {algebra : Algebra (Except Error) K}

theorem Algebra.Interprets.evaluate (interprets : algebra.Interprets meaning.toMeaning) (bounded : tape.Bounded)
    (distinct : (tape.inputs.flatMap Block.slots).Nodup) (options : EvalOptions) (one : K)
    (work : Vector K tape.numSlots) {point : List (List K)} (shaped : Session.Shaped tape.inputs point) :
    ∃ value : Nat → K, (∀ pair ∈ tape.inputs.zip point, pair.1.slots.map value = pair.2) ∧
      ((Session.holding tape options algebra one work).perform (Session.evaluate point)).1 =
        .ok (tape.outputs.map fun block =>
          block.slots.map (executeAll meaning.toMeaning tape.instructions value)) := by
  let loaded := Session.place (seedSlots tape.inputs point) work.toArray
  let value : Nat → K := fun slot => loaded[slot]?.getD 0
  have asSlots : slotArray tape.numSlots value = loaded := slotArray_getD (by simp [loaded]) 0
  refine ⟨value, ?_, ?_⟩
  · rintro ⟨block, entries⟩ member
    have inside : ∀ slot ∈ tape.inputs.flatMap Block.slots, slot < work.toArray.size := by
      intro slot slotMem
      rcases List.mem_flatMap.mp slotMem with ⟨other, otherMem, slotMem⟩
      simpa using bounded.inputs other otherMem slot slotMem
    rw [← List.forall₂_eq_eq_eq, List.forall₂_map_left_iff]
    refine (shaped.forall₂_place distinct inside member).imp fun slot entry found => ?_
    simp only [value, loaded, found, Option.getD_some]
  · have ran : tape.primal algebra loaded = .ok (slotArray tape.numSlots
        (executeAll meaning.toMeaning tape.instructions value)) :=
      asSlots ▸ interprets.evaluates.primal value bounded.instructions 0
    exact (Session.evaluate_eq_ok bounded.inputs).mpr
      ⟨shaped, _, ran, readBlocks_slotArray bounded.outputs⟩

end Evaluate

namespace Graph

variable {K : Type}

def assignment (inputs : List Handle) (point : List (List K)) (handle : Handle) : List K :=
  ((inputs.zip point).lookup handle).getD []

theorem assignment_eq {inputs : List Handle} {point : List (List K)} (distinct : inputs.Nodup)
    {input : Handle} {entries : List K} (member : (input, entries) ∈ inputs.zip point) :
    assignment inputs point input = entries := by
  have found : (inputs.zip point).lookup input = some entries := by
    induction inputs generalizing point with
    | nil => simp at member
    | cons first inputs ih =>
        rcases point with _ | ⟨firstEntries, point⟩
        · simp at member
        · rw [List.nodup_cons] at distinct
          rw [List.zip_cons_cons, List.mem_cons] at member
          rw [List.zip_cons_cons, List.lookup_cons]
          rcases member with same | later
          · cases same
            simp
          · have different : (input == first) = false := by
              rw [beq_eq_false_iff_ne]
              rintro rfl
              exact distinct.1 (List.of_mem_zip later).1
            rw [different]
            exact ih distinct.2 later
  rw [assignment, found]
  rfl

def Fits (graph : Graph) (handle : Handle) (entries : List K) : Prop :=
  ∃ pattern, graph.pattern handle = .ok pattern ∧ entries.length = pattern.nnz

variable {blocks : List Block}

theorem DeclaredFrom.shaped {graph : Graph} {next : Nat} {inputs : List Handle}
    (declared : DeclaredFrom graph next inputs blocks) {point : List (List K)}
    (fits : List.Forall₂ graph.Fits inputs point) :
    Session.Shaped blocks point := by
  refine (forall₂_trans declared.forall₂.flip fits).imp ?_
  rintro block entries ⟨input, ⟨isKnown, slots⟩, known, isKnown', length⟩
  cases Except.ok.inj (isKnown.symm.trans isKnown')
  rw [length, slots]

/-! ## Correctness -/

section Correct

variable [Zero K] {meaning : Interpretation K} {algebra : Algebra (Except Error) K} {graph : Graph}
  {inputs outputs : List Handle} {point : List (List K)}

variable {value : Nat → K}

theorem DeclaredFrom.holds {next : Nat} (declared : DeclaredFrom graph next inputs blocks) (distinct : inputs.Nodup)
    (wellFormed : graph.WellFormed) (fits : List.Forall₂ graph.Fits inputs point)
    (loaded : ∀ pair ∈ blocks.zip point, pair.1.slots.map value = pair.2) {input : Handle} {block : Block}
    (member : (input, block) ∈ inputs.zip blocks) {known : Pattern} (isKnown : graph.pattern input = .ok known) :
    (graph.denote meaning (assignment inputs point) input).Holds known (block.slots.map value) := by
  rcases declared.entry_of_mem member with ⟨entry, isEntry, isSymbol, _, _⟩
  have found := entry_eq_ok.mp isEntry
  rcases pattern_eq_ok.mp isKnown with ⟨other, isOther, rfl⟩
  cases Option.some.inj (found.symm.trans isOther)
  rcases List.mem_iff_getElem?.mp member with ⟨index, atIndex⟩
  rcases List.getElem?_zip_eq_some.mp atIndex with ⟨isInput, isBlock⟩
  rcases forall₂_getElem? fits isInput with ⟨entries, isEntries, pattern, isPattern, length⟩
  cases Except.ok.inj (isKnown.symm.trans isPattern)
  have blockEntries : (block, entries) ∈ blocks.zip point :=
    List.mem_of_getElem? (List.getElem?_zip_eq_some.mpr ⟨isBlock, isEntries⟩)
  have inputEntries : (input, entries) ∈ inputs.zip point :=
    List.mem_of_getElem? (List.getElem?_zip_eq_some.mpr ⟨isInput, isEntries⟩)
  rw [loaded _ blockEntries, wellFormed.denote_symbol meaning.toMeaning _ found isSymbol,
    assignment_eq distinct inputEntries]
  exact (wellFormed found).wellFormed.scatter_holds length

/-- The values of a lowered node are the stored entries of the matrix that it denotes. -/
theorem Emitted.holds {numbers : List (List Nat)} {emission : Emission}
    (emitted : Emitted graph inputs outputs blocks numbers emission) (wellFormed : graph.WellFormed)
    (fits : List.Forall₂ graph.Fits inputs point) (satisfies : emission.Satisfies meaning.toMeaning value)
    (loaded : ∀ pair ∈ blocks.zip point, pair.1.slots.map value = pair.2) {handle : Handle} {known : Pattern}
    (isKnown : graph.pattern handle = .ok known) {entries : Array Nat} (isLowered : emission.Lowered handle entries) :
    (graph.denote meaning (assignment inputs point) handle).Holds known
      (entries.toList.map value) := by
  refine emitted.accounts.lowered_holds satisfies wellFormed ?_ isKnown isLowered
  rintro input inputKnown _ ⟨block, blockMem, rfl⟩ isInputKnown
  exact emitted.declared.holds emitted.nodup wellFormed fits loaded blockMem isInputKnown

theorem WellFormed.holds_plain (wellFormed : graph.WellFormed) {share : Bool}
    (built : graph.build ⟨false, share⟩ inputs outputs = .ok tape) (meaning : Interpretation K)
    (fits : List.Forall₂ graph.Fits inputs point)
    (loaded : ∀ pair ∈ tape.inputs.zip point, pair.1.slots.map value = pair.2) :
    List.Forall₂ (fun output block => ∃ pattern, graph.pattern output = .ok pattern ∧
      (graph.denote meaning (assignment inputs point) output).Holds pattern
        (block.slots.map (executeAll meaning.toMeaning tape.instructions value)))
      outputs tape.outputs := by
  rcases exists_compiles built with ⟨emission, ⟨numbers, emitted⟩, bounded, compiled⟩
  -- The values of the outputs in the whole program, of which the tape keeps a part.
  let full := executeAll meaning.toMeaning emission.instructions.toList value
  have loadedFull : ∀ pair ∈ tape.inputs.zip point, pair.1.slots.map full = pair.2 := by
    intro pair member
    rw [← loaded pair member]
    refine List.map_congr_left fun slot slotMem =>
      emitted.accounts.consistent.numbered.executeAll_of_lt meaning.toMeaning value ?_
    rw [← List.mem_range, ← emitted.inputSlots]
    exact List.mem_flatMap.mpr ⟨pair.1, (List.of_mem_zip member).1, slotMem⟩
  refine compiled.imp ?_
  rintro output block ⟨isKnown, entries, isLowered, same⟩
  refine ⟨block.pattern, isKnown, ?_⟩
  rw [same]
  exact emitted.holds wellFormed fits
    (emitted.accounts.consistent.satisfies meaning.toMeaning value) loadedFull isKnown isLowered

theorem WellFormed.evaluate_plain (wellFormed : graph.WellFormed) {share : Bool}
    (built : graph.build ⟨false, share⟩ inputs outputs = .ok tape) (interprets : algebra.Interprets meaning.toMeaning)
    (fits : List.Forall₂ graph.Fits inputs point) (options : EvalOptions) (one : K) (work : Vector K tape.numSlots) :
    ∃ values,
      ((Session.holding tape options algebra one work).perform (Session.evaluate point)).1 =
        .ok values ∧
      List.Forall₂ (fun output entries => ∃ pattern, graph.pattern output = .ok pattern ∧
        pattern.scatter entries = graph.denote meaning (assignment inputs point) output)
        outputs values := by
  rcases exists_compiles built with ⟨emission, ⟨numbers, emitted⟩, bounded, _⟩
  have distinct : (tape.inputs.flatMap Block.slots).Nodup := emitted.inputSlots ▸ List.nodup_range
  rcases interprets.evaluate bounded distinct options one work (emitted.declared.shaped fits) with
    ⟨value, loaded, evaluated⟩
  refine ⟨_, evaluated, List.forall₂_map_right_iff.mpr ?_⟩
  refine (wellFormed.holds_plain built meaning fits loaded).imp ?_
  rintro output block ⟨pattern, isKnown, holds⟩
  exact ⟨pattern, isKnown, (wellFormed.pattern isKnown).scatter_eq
    (wellFormed.denote_supported meaning _ isKnown) holds⟩

/-- Compiler correctness. A tape that is built from a reachable graph, with any options, computes the
matrices that its outputs denote: for every interpretation of the opcodes, every point and whatever
earlier calls left in the working array, evaluation succeeds, and the entries of each output, scattered
over its pattern, are the matrix that the output denotes at the point. -/
theorem Reachable.build_correct (reachable : graph.Reachable) {buildOptions : BuildOptions}
    {tape : Tape} (built : graph.build buildOptions inputs outputs = .ok tape)
    (interprets : algebra.Interprets meaning.toMeaning) (fits : List.Forall₂ graph.Fits inputs point)
    (options : EvalOptions) (one : K) (work : Vector K tape.numSlots) :
    ∃ values,
      ((Session.holding tape options algebra one work).perform (Session.evaluate point)).1 =
        .ok values ∧
      List.Forall₂ (fun output entries => ∃ pattern, graph.pattern output = .ok pattern ∧
        pattern.scatter entries = graph.denote meaning (assignment inputs point) output)
        outputs values := by
  have wellFormed := reachable.wellFormed
  rcases buildOptions with ⟨_ | _, share⟩
  · exact wellFormed.evaluate_plain built interprets fits options one work
  · rcases graph.build_linked share inputs outputs with ⟨cause, _, failed⟩ | ⟨plain, reusing,
      before, after, plainBuilt, reusingBuilt, linked⟩
    · rw [failed] at built
      cases built
    · cases Except.ok.inj (reusingBuilt.symm.trans built)
      have plainWork : Vector K plain.numSlots := Vector.replicate _ 0
      rw [← linked.evaluate_eq options algebra one plainWork work point]
      exact wellFormed.evaluate_plain plainBuilt interprets fits options one plainWork

end Correct

/-! ## An instance over the integers -/

/-- The integers. An operation that is not one of theirs squares its operand or adds its operands. -/
def integers : Interpretation Int where
  literal value := if value = 0 then 0 else 2
  unary op operand := if op = .neg then -operand else operand * operand
  binary
    | .mul, left, right => left * right
    | .sub, left, right => left - right
    | .div, left, right => left / right
    | _, left, right => left + right
  literal_zero := if_pos rfl
  commutes := by
    intro op commutative left right
    cases op <;>
      first | exact Int.add_comm left right | exact Int.mul_comm left right | cases commutative
  preserves := by
    intro op _
    split <;> rfl
  zeroRule := by
    intro op
    cases op <;> simp [BinaryOp.zeroRule, ZeroRule.Holds]

/-- The integers as elements; evaluation does not ask for derivatives. -/
def integerElements : Algebra (Except Error) Int where
  zero := 0
  constant value := .ok (integers.literal value)
  eval
    | .const, first, _ => .ok first
    | .unary op, first, _ => .ok (integers.unary op first)
    | .binary op, first, second => .ok (integers.binary op first second)
  partials _ _ _ _ := .ok (0, 0)
  add left right := .ok (left + right)
  mul left right := .ok (left * right)
  isZero element := .ok (element == 0)
  admissible _ _ _ _ := true

def doubling : Graph :=
  (GraphM.binary (.binary .mul) ⟨3⟩ ⟨2⟩).graphAfter
    ((GraphM.vectorSymbol "x" 2).graphAfter .initial)

/-- The doubling graph spelled out; which numbers its literals are does not matter for its lowering. -/
theorem doubling_eq : ∃ (zero one two : Float) (interned : Std.HashMap Node Handle),
    doubling = ⟨#[⟨.constant zero, .scalar, 0⟩, ⟨.constant one, .scalar, 0⟩,
      ⟨.constant two, .scalar, 1⟩, ⟨.symbol 0, ⟨2, [[0, 1]]⟩, 1⟩,
      ⟨.binary .mul ⟨2⟩ ⟨3⟩, ⟨2, [[0, 1]]⟩, 0⟩], interned, #["x"]⟩ := by
  rcases initial_eq with ⟨zero, one, two, interned, same, absent⟩
  refine ⟨zero, one, two, interned.insert (.binary .mul ⟨2⟩ ⟨3⟩) ⟨4⟩, ?_⟩
  rw [doubling, same]
  refine (insert_of_absent _ ?_).trans rfl
  exact absent (.binary .mul ⟨2⟩ ⟨3⟩) (by simp [Node.operands])

theorem postOrder_doubling : doubling.postOrder [⟨4⟩] = .ok [⟨2⟩, ⟨3⟩, ⟨4⟩] := by
  rcases doubling_eq with ⟨zero, one, two, interned, same⟩
  rw [same]
  cbv

/-- The double of a vector, lowered with slot reuse and evaluated on an array that is not clean. -/
theorem doubling_correct : ∃ tape, doubling.Reachable ∧
    doubling.build ⟨true, false⟩ [⟨3⟩] [⟨4⟩] = .ok tape ∧
    integerElements.Interprets integers.toMeaning ∧ List.Forall₂ doubling.Fits [⟨3⟩] [[(3 : Int), 5]] ∧
    ∃ values,
      ((Session.holding tape {} integerElements 1 (Vector.replicate _ 7)).perform
        (Session.evaluate [[3, 5]])).1 = .ok values ∧
      List.Forall₂ (fun output entries => ∃ pattern, doubling.pattern output = .ok pattern ∧
        pattern.scatter entries = doubling.denote integers (assignment [⟨3⟩] [[3, 5]]) output)
        [⟨4⟩] values := by
  have reachable : doubling.Reachable := .after (.after .initial (.vectorSymbol ..)) (.binary ..)
  have interprets : integerElements.Interprets integers.toMeaning :=
    ⟨fun _ => rfl, fun _ _ _ => rfl, fun _ _ _ => rfl, fun _ _ _ _ => rfl⟩
  rcases doubling_eq with ⟨zero, one, two, interned, same⟩
  have built : doubling.build ⟨true, false⟩ [⟨3⟩] [⟨4⟩] = .ok ⟨[
      ⟨.const, 2, unusedOperand, unusedOperand, two⟩, ⟨.binary .mul, 0, 0, 2, 0⟩,
      ⟨.binary .mul, 2, 1, 2, 0⟩], 3, [⟨"x", ⟨2, [[0, 1]]⟩, [0, 1]⟩],
      [⟨"o0", ⟨2, [[0, 1]]⟩, [0, 2]⟩]⟩ := by
    rw [build, emitAll, postOrder_doubling, same]
    cbv
  have fits : List.Forall₂ doubling.Fits [⟨3⟩] [[(3 : Int), 5]] := by
    rw [same]
    exact .cons ⟨_, rfl, rfl⟩ .nil
  exact ⟨_, reachable, built, interprets, fits,
    Reachable.build_correct reachable built interprets fits {} 1 _⟩

end Graph

end Autodiff
