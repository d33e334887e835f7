import Autodiff.Proofs.Graph.Bookkeeping
import Autodiff.Symbolic.Derivative

/-!
# Graphs under operation

Constructors and symbolic sweeps change a graph in one way only: they add nodes in canonical form with the
patterns that are derived for them. So whatever lasts under this is kept by every operation, on any tape and with
any arguments, and also by an operation that fails after it has added some nodes. A sweep is followed step by
step, once for every judgement that can be read off the parts of a call (`GraphM.SymbolicLogic`): what holds of the
operations of its elements holds of the sweep.
-/

namespace Autodiff

open GraphM

/-- A judgement about calls that can be read off their parts, among them the questions of symbolic sweeps. -/
structure GraphM.SymbolicLogic (holds : {α : Type} → GraphM α → Prop) : Prop extends Logic holds where
  literal? : ∀ handle, holds (Symbolic.literal? handle)
  negated? : ∀ handle, holds (Symbolic.negated? handle)
  isZero : ∀ handle, holds (Symbolic.isZero handle)
  lowered : ∀ inputs output, holds (Tape.lowered inputs output)

variable {holds : {α : Type} → GraphM α → Prop}

/-! ## Simplified expressions -/

namespace Symbolic

variable (logic : SymbolicLogic holds)
include logic

theorem holds_fold (op : Opcode) (left right : Float) : holds (MonadFold.fold op left right : GraphM Float) :=
  logic.lift _

theorem holds_unary (op : Opcode) (operand : Handle) : holds (unary op operand : GraphM Handle) := by
  refine logic.bind (logic.literal? operand) fun literal => ?_
  split
  · exact logic.bind (holds_fold logic _ _ _) fun _ => logic.constant _
  · refine logic.bind (logic.negated? operand) fun _ => ?_
    split
    · exact logic.pure _
    · exact logic.unary op operand

theorem holds_simplified (op : BinaryOp) (left? right? : Option Float) (lhs rhs : Handle) :
    holds (simplified op left? right? lhs rhs : GraphM Handle) := by
  have negates := fun operand => holds_unary logic (.unary .neg) operand
  have constructs := fun op => logic.scalarBinary op lhs rhs
  unfold simplified
  split
  all_goals repeat' split
  all_goals first | exact logic.pure _ | exact constructs _ | exact negates _

theorem holds_binary (op : BinaryOp) (lhs rhs : Handle) : holds (binary op lhs rhs : GraphM Handle) := by
  refine logic.bind (logic.literal? lhs) fun _ => logic.bind (logic.literal? rhs) fun _ => ?_
  split
  · exact logic.bind (holds_fold logic _ _ _) fun _ => logic.constant _
  · exact holds_simplified logic ..

theorem holds_eval (op : Opcode) (first second : Handle) : holds (eval op first second : GraphM Handle) := by
  unfold eval
  split
  · exact holds_binary logic ..
  · exact holds_unary logic ..

theorem holds_inverseRoot (radicand : Handle) : holds (inverseRoot radicand : GraphM Handle) :=
  logic.bind (holds_unary logic ..) fun _ => holds_binary logic ..

theorem holds_derivative (op : UnaryOp) (a r : Handle) : holds (derivative op a r : GraphM Handle) := by
  cases op with
  | exp | sign | floor | ceil | round | trunc => exact logic.pure _
  | neg => exact logic.constant _
  | sin | sinh | cosh | abs => exact holds_unary logic ..
  | sq | expM1 | ln => exact holds_binary logic ..
  | recip | cos => exact logic.bind (holds_unary logic ..) fun _ => holds_unary logic ..
  | tan | tanh => exact logic.bind (holds_unary logic ..) fun _ => holds_binary logic ..
  | sqrt | ln1p => exact logic.bind (holds_binary logic ..) fun _ => holds_binary logic ..
  | atan | atanh =>
      refine logic.bind (holds_unary logic ..) fun _ => logic.bind (holds_binary logic ..) fun _ => ?_
      exact holds_binary logic ..
  | asin | asinh | acosh =>
      refine logic.bind (holds_unary logic ..) fun _ => logic.bind (holds_binary logic ..) fun _ => ?_
      exact holds_inverseRoot logic _
  | acos =>
      refine logic.bind (holds_unary logic ..) fun _ => logic.bind (holds_binary logic ..) fun _ => ?_
      exact logic.bind (holds_inverseRoot logic _) fun _ => holds_unary logic ..
  | cbrt =>
      refine logic.bind (logic.constant _) fun _ => logic.bind (holds_unary logic ..) fun _ => ?_
      exact logic.bind (holds_binary logic ..) fun _ => holds_binary logic ..

theorem holds_tieShare (a b : Handle) : holds (tieShare a b : GraphM (Handle × Handle)) := by
  refine logic.bind (holds_binary logic ..) fun _ => logic.bind (holds_unary logic ..) fun _ => ?_
  exact logic.bind (logic.constant _) fun _ => logic.bind (holds_binary logic ..) fun _ => logic.pure _

theorem holds_derivatives (op : BinaryOp) (a b r : Handle) :
    holds (derivatives op a b r : GraphM (Handle × Handle)) := by
  cases op with
  | add | mul => exact logic.pure _
  | sub => exact logic.bind (logic.constant _) fun _ => logic.pure _
  | div =>
      refine logic.bind (holds_binary logic ..) fun _ => logic.bind (holds_binary logic ..) fun _ => ?_
      exact logic.bind (holds_unary logic ..) fun _ => logic.pure _
  | pow =>
      refine logic.bind (holds_binary logic ..) fun _ => logic.bind (holds_binary logic ..) fun _ => ?_
      refine logic.bind (holds_binary logic ..) fun _ => logic.bind (holds_unary logic ..) fun _ => ?_
      refine logic.bind (holds_unary logic ..) fun _ => logic.bind (holds_binary logic ..) fun _ => ?_
      refine logic.bind (holds_binary logic ..) fun _ => logic.bind (holds_unary logic ..) fun _ => ?_
      exact logic.bind (holds_binary logic ..) fun _ => logic.pure _
  | atan2 =>
      refine logic.bind (holds_unary logic ..) fun _ => logic.bind (holds_unary logic ..) fun _ => ?_
      refine logic.bind (holds_binary logic ..) fun _ => logic.bind (holds_binary logic ..) fun _ => ?_
      exact logic.bind (holds_unary logic ..) fun _ => logic.bind (holds_binary logic ..) fun _ => logic.pure _
  | hypot => exact logic.bind (holds_binary logic ..) fun _ => logic.bind (holds_binary logic ..) fun _ => logic.pure _
  | fmin | fmax =>
      refine logic.bind (holds_tieShare logic a b) fun _ => logic.bind (holds_binary logic ..) fun _ => ?_
      exact logic.bind (holds_binary logic ..) fun _ => logic.pure _

theorem holds_partials (op : Opcode) (a b r : Handle) : holds (partials op a b r : GraphM (Handle × Handle)) := by
  rcases op with _ | op | op
  · exact logic.pure _
  · exact logic.bind (holds_derivative logic op a r) fun _ => logic.pure _
  · exact holds_derivatives logic op a b r

end Symbolic

/-! ## Sweeps -/

/-- A judgement holds of the operations of the elements. -/
structure Algebra.Obeys {α : Type} (holds : {β : Type} → GraphM β → Prop) (algebra : Algebra GraphM α) : Prop where
  constant : ∀ value, holds (algebra.constant value)
  eval : ∀ op first second, holds (algebra.eval op first second)
  partials : ∀ op first second result, holds (algebra.partials op first second result)
  add : ∀ left right, holds (algebra.add left right)
  mul : ∀ left right, holds (algebra.mul left right)
  isZero : ∀ element, holds (algebra.isZero element)

theorem obeys_expressions (logic : SymbolicLogic holds) : (expressions : Algebra GraphM Handle).Obeys holds where
  constant _ := logic.constant _
  eval _ _ _ := Symbolic.holds_eval logic ..
  partials _ _ _ _ := Symbolic.holds_partials logic ..
  add _ _ := Symbolic.holds_binary logic ..
  mul _ _ := Symbolic.holds_binary logic ..
  isZero _ := logic.isZero _

section Sweeps

variable {α : Type} {algebra : Algebra GraphM α} (logic : Logic holds)
include logic

theorem holds_readSlot (array : Array α) (slot : Nat) : holds (readSlot array slot : GraphM α) := by
  unfold readSlot
  split
  · exact logic.pure _
  · exact logic.throw _

theorem holds_writeSlot (array : Array α) (slot : Nat) (element : α) :
    holds (writeSlot array slot element : GraphM (Array α)) := by
  unfold writeSlot
  split
  · exact logic.pure _
  · exact logic.throw _

theorem holds_readBlocks (blocks : List Block) (array : Array α) :
    holds (readBlocks blocks array : GraphM (List (List α))) :=
  logic.mapM fun _ => logic.mapM fun slot => holds_readSlot logic array slot

theorem holds_scatter (algebra : Algebra GraphM α) (numSlots : Nat) (blocks : List Block) (seed : Seed α) :
    holds (scatter algebra numSlots blocks seed) :=
  logic.foldlM (fun _ _ => holds_writeSlot logic ..) _ _

variable (obeys : algebra.Obeys holds)
include obeys

namespace Instruction

theorem holds_step (instruction : Instruction) (index : Nat) (work : Array α) :
    holds (instruction.step algebra index work) := by
  have loads : holds (instruction.load algebra work) := by
    unfold load
    split
    · exact logic.pure _
    · exact logic.bind (holds_readSlot logic ..) fun _ => logic.pure _
    · refine logic.bind (holds_readSlot logic ..) fun _ => ?_
      exact logic.bind (holds_readSlot logic ..) fun _ => logic.pure _
  refine logic.bind loads fun (first, second) => ?_
  dsimp only
  split
  · exact logic.bind (obeys.constant _) fun _ => logic.pure _
  · refine logic.bind (obeys.eval ..) fun _ => ?_
    split
    · exact logic.pure _
    · exact logic.throw _

theorem holds_stepPartials (instruction : Instruction) (step : Step α) :
    holds (instruction.stepPartials algebra step) := by
  unfold stepPartials
  split
  · exact logic.pure _
  · exact obeys.partials ..

theorem holds_tangent (instruction : Instruction) (weights : α × α) (tangents : Array α) :
    holds (instruction.tangent algebra weights tangents) := by
  have shares : ∀ weight tangent, holds (tangentShare algebra weight tangent) := by
    intro weight tangent
    refine logic.bind (obeys.isZero _) fun _ => ?_
    split
    · exact logic.pure _
    · exact obeys.mul ..
  unfold Instruction.tangent
  split
  · exact logic.pure _
  · exact logic.bind (holds_readSlot logic ..) fun _ => shares ..
  · refine logic.bind (holds_readSlot logic ..) fun _ => logic.bind (shares ..) fun _ => ?_
    refine logic.bind (holds_readSlot logic ..) fun _ => logic.bind (obeys.isZero _) fun _ => ?_
    split
    · exact logic.pure _
    · exact logic.bind (obeys.mul ..) fun _ => obeys.add ..

theorem holds_accumulate (adjoints : Array α) (slot : Nat) (share : α) :
    holds (accumulate algebra adjoints slot share) :=
  logic.bind (holds_readSlot logic ..) fun _ => logic.bind (obeys.add ..) fun _ => holds_writeSlot logic ..

theorem holds_pullBack (instruction : Instruction) (weights : α × α) (adjoints : Array α) :
    holds (instruction.pullBack algebra weights adjoints) := by
  refine logic.bind (holds_readSlot logic ..) fun _ => logic.bind (holds_writeSlot logic ..) fun _ => ?_
  split
  · exact logic.pure _
  · refine logic.bind (obeys.isZero _) fun _ => ?_
    split
    · exact logic.pure _
    · exact logic.bind (obeys.mul ..) fun _ => holds_accumulate logic obeys ..
  · refine logic.bind (obeys.isZero _) fun _ => ?_
    split
    · exact logic.pure _
    · refine logic.bind (obeys.mul ..) fun _ => logic.bind (holds_accumulate logic obeys ..) fun _ => ?_
      exact logic.bind (obeys.mul ..) fun _ => holds_accumulate logic obeys ..

end Instruction

theorem holds_primalStep (work : Array α) (numbered : Instruction × Nat) :
    holds (primalStep algebra work numbered) :=
  logic.bind (Instruction.holds_step logic obeys ..) fun _ => holds_writeSlot logic ..

theorem holds_recordStep (state : Array α × Record α) (numbered : Instruction × Nat) :
    holds (recordStep algebra state numbered) := by
  refine logic.bind (Instruction.holds_step logic obeys ..) fun _ => ?_
  refine logic.bind (Instruction.holds_stepPartials logic obeys ..) fun _ => ?_
  exact logic.bind (holds_writeSlot logic ..) fun _ => logic.pure _

theorem holds_tangentStep (state : Array α × List (Array α)) (numbered : Instruction × Nat) :
    holds (tangentStep algebra state numbered) := by
  refine logic.bind (Instruction.holds_step logic obeys ..) fun _ => ?_
  refine logic.bind (Instruction.holds_stepPartials logic obeys ..) fun _ => ?_
  refine logic.bind (logic.mapM fun _ => ?_) fun _ => logic.bind (holds_writeSlot logic ..) fun _ => logic.pure _
  exact logic.bind (Instruction.holds_tangent logic obeys ..) fun _ => holds_writeSlot logic ..

namespace Tape

theorem holds_primal (tape : Tape) (work : Array α) : holds (tape.primal algebra work) :=
  logic.foldlM (holds_primalStep logic obeys) _ _

theorem holds_forward (tape : Tape) (work : Array α) (seeds : List (Seed α)) :
    holds (tape.forward algebra work seeds) := by
  refine logic.bind (logic.mapM fun _ => holds_scatter logic ..) fun _ => ?_
  refine logic.bind (logic.foldlM (holds_tangentStep logic obeys) _ _) fun _ => ?_
  refine logic.bind (holds_readBlocks logic ..) fun _ => ?_
  exact logic.bind (logic.mapM fun _ => holds_readBlocks logic ..) fun _ => logic.pure _

theorem holds_reverse (tape : Tape) (work : Array α) (seeds : List (Seed α)) :
    holds (tape.reverse algebra work seeds) := by
  refine logic.bind (logic.foldlM (holds_recordStep logic obeys) _ _) fun _ => ?_
  refine logic.bind (holds_readBlocks logic ..) fun _ => logic.bind (logic.mapM fun _ => ?_) fun _ => ?_
  · exact logic.foldlM (fun _ _ => Instruction.holds_accumulate logic obeys ..) _ _
  · refine logic.bind (logic.foldlM (fun _ _ => ?_) _ _) fun _ => ?_
    · exact logic.mapM fun _ => Instruction.holds_pullBack logic obeys ..
    · exact logic.bind (logic.mapM fun _ => holds_readBlocks logic ..) fun _ => logic.pure _

end Tape

end Sweeps

/-! ## Symbolic calls -/

namespace Tape

variable (logic : SymbolicLogic holds)
include logic

theorem holds_symbolicWork (tape : Tape) (inputs : List (List Handle)) : holds (tape.symbolicWork inputs) := by
  have places : ∀ work numbered, holds (placeBlock work numbered) := by
    rintro work ⟨⟨block, values⟩, index⟩
    rw [placeBlock]
    apply logic.check_then
    refine logic.foldlM (fun _ _ => logic.bind (logic.check _) fun _ => ?_) _ _
    exact holds_writeSlot logic.toLogic ..
  rw [symbolicWork]
  apply logic.check_then
  exact logic.foldlM places _ _

theorem holds_checkSeedHandles (seeds : List (Seed Handle)) : holds (checkSeedHandles seeds) :=
  logic.forM fun _ => logic.forM fun _ => logic.forM fun _ => logic.check _

theorem holds_evalSymbolic (tape : Tape) (inputs : List (List Handle)) :
    holds (tape.evalSymbolic inputs : GraphM (List (List Handle))) := by
  refine logic.bind (holds_symbolicWork logic tape inputs) fun _ => ?_
  refine logic.bind (holds_primal logic.toLogic (obeys_expressions logic) ..) fun _ => ?_
  exact holds_readBlocks logic.toLogic ..

theorem holds_forwardSymbolic (tape : Tape) (inputs : List (List Handle)) (seeds : List (Seed Handle)) :
    holds (tape.forwardSymbolic inputs seeds : GraphM (Derivatives Handle)) := by
  refine logic.bind (logic.lift _) fun _ => logic.bind (holds_symbolicWork logic tape inputs) fun _ => ?_
  refine logic.bind (holds_checkSeedHandles logic seeds) fun _ => ?_
  exact logic.bind (holds_forward logic.toLogic (obeys_expressions logic) ..) fun _ => logic.pure _

theorem holds_reverseSymbolic (tape : Tape) (inputs : List (List Handle)) (seeds : List (Seed Handle)) :
    holds (tape.reverseSymbolic inputs seeds : GraphM (Derivatives Handle)) := by
  refine logic.bind (logic.lift _) fun _ => logic.bind (holds_checkSeedHandles logic seeds) fun _ => ?_
  refine logic.bind (holds_symbolicWork logic tape inputs) fun _ => ?_
  exact logic.bind (holds_reverse logic.toLogic (obeys_expressions logic) ..) fun _ => logic.pure _

theorem holds_inputEntries (tape : Tape) (inputs : List Handle) : holds (tape.inputEntries inputs) := by
  have entries : ∀ numbered, holds (blockEntries numbered) := by
    intro numbered
    refine logic.bind (logic.check _) fun _ => logic.bind (logic.pattern _) fun _ => ?_
    apply logic.check_then
    exact logic.nonzeros _
  rw [inputEntries]
  apply logic.check_then
  exact logic.mapM entries

theorem holds_jacobianEntries (tape : Tape) (entries : List (List Handle))
    (iind oind numInputs numOutputs : Nat) (pattern : Pattern) :
    holds (tape.jacobianEntries entries iind oind numInputs numOutputs pattern : GraphM (List Handle)) := by
  unfold jacobianEntries
  split
  · exact logic.bind (holds_forwardSymbolic logic ..) fun _ => logic.mapM fun _ => logic.lift _
  · exact logic.bind (holds_reverseSymbolic logic ..) fun _ => logic.mapM fun _ => logic.lift _

theorem holds_jacobianExpr (tape : Tape) (inputs : List Handle) (iind oind : Nat) :
    holds (tape.jacobianExpr inputs iind oind : GraphM Handle) := by
  refine logic.bind (logic.lift _) fun _ => logic.bind (logic.lift _) fun _ => ?_
  refine logic.bind (holds_inputEntries logic tape inputs) fun _ => logic.bind (logic.lift _) fun _ => ?_
  exact logic.bind (holds_jacobianEntries logic ..) fun _ => logic.assemble ..

theorem holds_gradientColumn (tape : Tape) (inputs : List Handle) (iind oind : Nat) :
    holds (tape.gradientColumn inputs iind oind : GraphM Handle) := by
  refine logic.bind (holds_inputEntries logic tape inputs) fun _ => ?_
  refine logic.bind (holds_reverseSymbolic logic ..) fun _ => logic.bind (logic.lift _) fun _ => ?_
  exact logic.bind (logic.lift _) fun _ => logic.assemble ..

theorem holds_hessianExpr (tape : Tape) (inputs : List Handle) (iind oind : Nat) :
    holds (tape.hessianExpr inputs iind oind : GraphM Handle) := by
  refine logic.bind (logic.lift _) fun _ => logic.bind (logic.lift _) fun output => ?_
  apply logic.check_then
  refine logic.bind (holds_gradientColumn logic ..) fun column => ?_
  exact logic.bind (logic.lowered _ _) fun gradientTape => holds_jacobianExpr logic ..

end Tape

inductive GraphM.Sweeps : {α : Type} → GraphM α → Prop where
  | evalSymbolic (tape : Tape) (inputs : List (List Handle)) : Sweeps (tape.evalSymbolic inputs)
  | forwardSymbolic (tape : Tape) (inputs : List (List Handle)) (seeds : List (Seed Handle)) :
      Sweeps (tape.forwardSymbolic inputs seeds)
  | reverseSymbolic (tape : Tape) (inputs : List (List Handle)) (seeds : List (Seed Handle)) :
      Sweeps (tape.reverseSymbolic inputs seeds)
  | jacobianExpr (tape : Tape) (inputs : List Handle) (iind oind : Nat) :
      Sweeps (tape.jacobianExpr inputs iind oind)
  | hessianExpr (tape : Tape) (inputs : List Handle) (iind oind : Nat) :
      Sweeps (tape.hessianExpr inputs iind oind)

/-- A judgement that can be read off the parts of calls holds of every symbolic sweep. -/
theorem GraphM.Sweeps.obeys {α : Type} {call : GraphM α} (sweeps : call.Sweeps) (logic : SymbolicLogic holds) :
    holds call := by
  cases sweeps with
  | evalSymbolic tape inputs => exact tape.holds_evalSymbolic logic inputs
  | forwardSymbolic tape inputs seeds => exact tape.holds_forwardSymbolic logic inputs seeds
  | reverseSymbolic tape inputs seeds => exact tape.holds_reverseSymbolic logic inputs seeds
  | jacobianExpr tape inputs iind oind => exact tape.holds_jacobianExpr logic inputs iind oind
  | hessianExpr tape inputs iind oind => exact tape.holds_hessianExpr logic inputs iind oind

variable {property : Graph → Prop}

theorem symbolicLogic_keeps (lasts : Graph.Lasts property) : SymbolicLogic (Keeps property) where
  toLogic := logic_keeps lasts
  literal? _ := Keeps.get.bind fun _ => .lift _
  negated? handle := by
    refine Keeps.get.bind fun _ => (Keeps.lift _).bind fun _ => ?_
    split <;> exact .pure _
  isZero _ := Keeps.get.bind fun _ => .lift _
  lowered _ _ := Keeps.get.bind fun _ => .lift _

/-! ## Sequences of operations -/

/-- The operations on a graph: constructors, and symbolic sweeps of any tape. -/
inductive GraphM.Operates : {α : Type} → GraphM α → Prop where
  | construct {α : Type} {call : GraphM α} (constructs : call.Constructs) : Operates call
  | evalSymbolic (tape : Tape) (inputs : List (List Handle)) : Operates (tape.evalSymbolic inputs)
  | forwardSymbolic (tape : Tape) (inputs : List (List Handle)) (seeds : List (Seed Handle)) :
      Operates (tape.forwardSymbolic inputs seeds)
  | reverseSymbolic (tape : Tape) (inputs : List (List Handle)) (seeds : List (Seed Handle)) :
      Operates (tape.reverseSymbolic inputs seeds)
  | jacobianExpr (tape : Tape) (inputs : List Handle) (iind oind : Nat) :
      Operates (tape.jacobianExpr inputs iind oind)
  | hessianExpr (tape : Tape) (inputs : List Handle) (iind oind : Nat) :
      Operates (tape.hessianExpr inputs iind oind)

theorem GraphM.Operates.keeps {α : Type} {call : GraphM α} (operates : call.Operates)
    (lasts : Graph.Lasts property) : Keeps property call := by
  have sweeps {β : Type} {call : GraphM β} (isSweep : call.Sweeps) := isSweep.obeys (symbolicLogic_keeps lasts)
  cases operates with
  | construct constructs => exact constructs.keeps lasts
  | evalSymbolic => exact sweeps (.evalSymbolic ..)
  | forwardSymbolic => exact sweeps (.forwardSymbolic ..)
  | reverseSymbolic => exact sweeps (.reverseSymbolic ..)
  | jacobianExpr => exact sweeps (.jacobianExpr ..)
  | hessianExpr => exact sweeps (.hessianExpr ..)

namespace Graph

/-- A sequence of operations leads from one graph to another; each of them may succeed or fail. -/
inductive Evolves (start : Graph) : Graph → Prop where
  | refl : Evolves start start
  | after {graph : Graph} (evolves : Evolves start graph) {α : Type} {call : GraphM α}
      (operates : call.Operates) : Evolves start (call.graphAfter graph)

theorem Evolves.of_lasts {start graph : Graph} (evolves : start.Evolves graph) (lasts : Lasts property)
    (holds : property start) : property graph := by
  induction evolves with
  | refl => exact holds
  | after _ operates holds => exact operates.keeps lasts holds

/-! ## The invariant -/

/-- What holds of a graph between operations. -/
structure Invariant (graph : Graph) : Prop where
  /-- Operands come before their readers. -/
  below : ∀ ⦃index : Nat⦄ ⦃node : Node⦄, graph.nodes[index]? = some node →
    ∀ operand ∈ node.operands, operand.index < index
  /-- The table knows exactly the nodes that are not symbols, each by its own handle. -/
  interned_iff : ∀ (node : Node) (handle : Handle), graph.interned[node]? = some handle ↔
    node.isSymbol = false ∧ graph.nodes[handle.index]? = some node
  distinct : graph.nodes.Nodup
  wellFormed : ∀ entry ∈ graph.entries, entry.pattern.WellFormed
  derived : ∀ entry ∈ graph.entries, entry.node.isSymbol = false → graph.derive entry.node = .ok entry.pattern
  /-- The count of a node is the number of nodes that have it as an operand. -/
  counted : ∀ ⦃index : Nat⦄ ⦃entry : Entry⦄, graph.entries[index]? = some entry →
    entry.references = graph.nodes.countP fun node => ⟨index⟩ ∈ node.operands
  sorted : ∀ ⦃op lhs rhs⦄, .binary op lhs rhs ∈ graph.nodes → op.isCommutative → lhs.index ≤ rhs.index
  several : ∀ ⦃kind parts⦄, .concat kind parts ∈ graph.nodes → 2 ≤ parts.length
  transposed : ∀ ⦃operand⦄, .transpose operand ∈ graph.nodes → ∃ node pattern,
    graph.HasNode operand node pattern ∧ (∀ inner, node ≠ .transpose inner) ∧ pattern.shape ≠ (1, 1)
  inside : ∀ ⦃operand index⦄, .nonzero operand index ∈ graph.nodes → ∃ pattern,
    graph.pattern operand = .ok pattern ∧ index < pattern.nnz
  zero : graph.nodes[0]? = some (.constant 0)
  one : graph.nodes[1]? = some (.constant 1)
  two : graph.nodes[2]? = some (.constant 2)

theorem HasNode.getElem?_nodes {graph : Graph} {handle : Handle} {node : Node} {pattern : Pattern}
    (hasNode : graph.HasNode handle node pattern) : graph.nodes[handle.index]? = some node := by
  rcases hasNode with ⟨entry, found, rfl, _⟩
  exact Graph.getElem?_nodes.mpr ⟨entry, found, rfl⟩

namespace Tidy

variable {graph : Graph}

/-- The table leads to the pattern that is derived for a node. -/
theorem derive_eq (tidy : graph.Tidy) {index : Nat} {entry : Entry} (found : graph.entries[index]? = some entry)
    (notSymbol : entry.node.isSymbol = false) : graph.derive entry.node = .ok entry.pattern := by
  have isInterned := tidy.interned (getElem?_nodes.mpr ⟨entry, found, rfl⟩) notSymbol
  rcases tidy.table isInterned with ⟨pattern, hasNode, derived⟩
  have same := hasNode.unique ⟨entry, found, rfl, rfl⟩
  rw [derived, same.2]

theorem interned_iff (tidy : graph.Tidy) (node : Node) (handle : Handle) :
    graph.interned[node]? = some handle ↔ node.isSymbol = false ∧ graph.nodes[handle.index]? = some node := by
  constructor
  · intro isInterned
    rcases tidy.table isInterned with ⟨pattern, hasNode, derived⟩
    refine ⟨?_, hasNode.getElem?_nodes⟩
    cases node with
    | symbol index => cases derived
    | _ => rfl
  · rintro ⟨notSymbol, isNode⟩
    exact tidy.interned isNode notSymbol

theorem exists_entry {node : Node} (member : node ∈ graph.nodes) :
    ∃ (index : Nat) (entry : Entry), graph.entries[index]? = some entry ∧ entry.node = node := by
  rcases List.mem_iff_getElem?.mp member with ⟨index, isNode⟩
  rcases getElem?_nodes.mp isNode with ⟨entry, found, same⟩
  exact ⟨index, entry, found, same⟩

theorem invariant (tidy : graph.Tidy) (sound : graph.Sound) : graph.Invariant where
  below index node isNode := by
    rcases getElem?_nodes.mp isNode with ⟨entry, found, rfl⟩
    exact (tidy.wellFormed found).below
  interned_iff := tidy.interned_iff
  distinct := tidy.distinct
  wellFormed entry member := by
    rcases Array.mem_iff_getElem?.mp member with ⟨index, found⟩
    exact (tidy.wellFormed found).wellFormed
  derived entry member notSymbol := by
    rcases Array.mem_iff_getElem?.mp member with ⟨index, found⟩
    exact tidy.derive_eq found notSymbol
  counted := tidy.counted
  sorted op lhs rhs member := tidy.canonical _ member
  several kind parts member := tidy.canonical _ member
  transposed operand member := by
    rcases tidy.canonical _ member with ⟨node, pattern, hasNode, notTranspose, notScalar⟩
    refine ⟨node, pattern, hasNode, notTranspose, fun isOne => ?_⟩
    rcases Prod.mk.inj isOne with ⟨oneRow, oneColumn⟩
    simp [Pattern.isScalar, oneRow, oneColumn] at notScalar
  inside operand index member := by
    rcases exists_entry member with ⟨position, entry, found, isNonzero⟩
    have derived := derived_of_derive (tidy.derive_eq found (isNonzero ▸ rfl))
    rw [isNonzero] at derived
    generalize entry.pattern = pattern at derived
    cases derived with
    | nonzero known inside => exact ⟨_, known, inside⟩
  zero := sound.zero.getElem?_nodes
  one := sound.one.getElem?_nodes
  two := sound.two.getElem?_nodes

end Tidy

/-- After every sequence of operations on a new graph, constructors and symbolic sweeps of any tapes with any
arguments, of which each may succeed or fail, the graph is in order; and all further operations leave its nodes
and their patterns as they are and never lower a count. -/
theorem Evolves.invariant_persists {before after : Graph} (first : initial.Evolves before)
    (second : before.Evolves after) : after.Invariant ∧ before.Persists after := by
  have tidy := second.of_lasts lasts_tidy (first.of_lasts lasts_tidy (lasts_tidy.initial tidy_empty))
  have sound := second.of_lasts lasts_sound (first.of_lasts lasts_sound sound_initial)
  exact ⟨tidy.invariant sound, second.of_lasts (lasts_persists before) (.refl before)⟩

/-- A vector is transposed, and then a concatenation with a handle that is not a node fails. -/
theorem transposed_vector_persists :
    let vector := (GraphM.vectorSymbol "x" 2).graphAfter .initial
    let later := (GraphM.concat .vertical [⟨4⟩, ⟨9⟩]).graphAfter ((GraphM.transpose ⟨3⟩).graphAfter vector)
    initial.Evolves vector ∧ vector.Evolves later ∧ later.Invariant ∧ vector.Persists later := by
  intro vector later
  have first : initial.Evolves vector := .after .refl (.construct (.vectorSymbol ..))
  have second : vector.Evolves later :=
    .after (.after .refl (.construct (.transpose ..))) (.construct (.concat ..))
  exact ⟨first, second, Evolves.invariant_persists first second⟩

end Graph

end Autodiff
