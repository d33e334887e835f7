import Autodiff.Scalar.Rules
import Autodiff.Tape.Derivative

/-!
# Numeric sessions

A session evaluates one tape again and again on the same working array. What an earlier call
left in the array never shows in a later one, because a valid tape writes every slot before it reads
it. The calls are written over the elements that the session holds; `Session.new` makes a session
over numbers.
-/

namespace Autodiff

/-- Numbers as elements. Under the policy `reject` a result that is not finite is only
acceptable if some operand was not finite. -/
def numbers {α : Type} [Scalar α] (policy : DomainPolicy) : Algebra (Except Error) α where
  zero := Scalar.zero
  constant value := pure (Scalar.ofLiteral value)
  eval op first second := op.apply first second
  partials op first second result := pure (op.partials first second result)
  add left right := pure (left + right)
  mul left right := pure (left * right)
  isZero element := pure (Scalar.same element Scalar.zero)
  admissible op first second result :=
    match policy with
    | .propagate => true
    | .reject => !op.leavesDomain first second result

/-- A tape with settings, the elements that its sweeps compute with and a working array. -/
structure Session (α : Type) where
  tape : Tape
  options : EvalOptions
  algebra : Algebra (Except Error) α
  /-- The seeded entries of a unit direction. -/
  one : α
  work : Array α

/-- Calls on a session; the working array is kept whether a call succeeds or fails. -/
abbrev SessionM (α : Type) := ExceptT Error (StateM (Session α))

namespace Session

variable {α : Type}

def fresh (algebra : Algebra (Except Error) α) (one : α) (tape : Tape) (options : EvalOptions) :
    Session α :=
  ⟨tape, options, algebra, one, Array.replicate tape.numSlots algebra.zero⟩

def new [Scalar α] (tape : Tape) (options : EvalOptions) : Session α :=
  fresh (numbers options.domainPolicy) Scalar.one tape options

def perform {β : Type} (session : Session α) (call : SessionM α β) :
    Except Error β × Session α :=
  call.run.run session

def oneShot [Scalar α] {β : Type} (tape : Tape) (call : SessionM α β) : Except Error β :=
  ((new tape {}).perform call).1

def checkBlock (numbered : (Block × List α) × Nat) : Except Error Unit :=
  if numbered.1.2.length = numbered.1.1.slots.length then .ok ()
  else .error
    (.evaluation (.inputLength numbered.2 numbered.1.1.slots.length numbered.1.2.length))

def store (entries : List (Nat × α)) (work : Array α) : Except Error (Array α) :=
  entries.foldlM (fun work entry => writeSlot work entry.1 entry.2) work

def loadBlock (numbered : (Block × List α) × Nat) : SessionM α Unit := do
  checkBlock numbered
  let session ← get
  let work ← store (numbered.1.1.slots.zip numbered.1.2) session.work
  set { session with work }

def load (inputs : List (List α)) : SessionM α Unit := do
  let blocks := (← get).tape.inputs
  if inputs.length ≠ blocks.length then
    throw (.evaluation (.inputCount blocks.length inputs.length))
  (blocks.zip inputs).zipIdx.forM loadBlock

/-- Runs a computation on the working array and keeps the array that it returns. -/
def onWork {β : Type} (run : Session α → Except Error (Array α × β)) : SessionM α β := do
  let session ← get
  let (work, result) ← run session
  set { session with work }
  return result

def evaluate (inputs : List (List α)) : SessionM α (List (List α)) := do
  load inputs
  onWork fun session => do
    let work ← session.tape.primal session.algebra session.work
    return (work, ← readBlocks session.tape.outputs work)

/-- Values and directional derivatives: each sensitivity is the Jacobian times a seed. -/
def forwardAd (inputs : List (List α)) (seeds : List (Seed α)) : SessionM α (Derivatives α) := do
  checkSeeds (← get).tape.inputs seeds
  load inputs
  onWork fun session => session.tape.forward session.algebra session.work seeds

/-- Values and adjoint derivatives: each sensitivity is the transposed Jacobian times a
seed. -/
def reverseAd (inputs : List (List α)) (seeds : List (Seed α)) : SessionM α (Derivatives α) := do
  checkSeeds (← get).tape.outputs seeds
  load inputs
  onWork fun session => session.tape.reverse session.algebra session.work seeds

/-- The seeds of given entries of one block, one direction per entry set. -/
def unitSeeds (session : Session α) (blocks : List Block) (index : Nat)
    (chosen : List (List Nat)) : List (Seed α) :=
  chosen.map (unitSeed session.algebra.zero session.one blocks index)

/-- The gradient of an output with one stored entry, by a reverse sweep. -/
def gradientBy {m : Type → Type} [Monad m] [MonadExceptOf Error m] [MonadLiftT (Except Error) m]
    (session : Session α) (reverse : List (Seed α) → m (Derivatives α)) (oind : Nat) :
    m (List (List α)) := do
  let output ← session.tape.block .output oind
  if output.slots.length ≠ 1 then
    throw (.evaluation (.notScalar oind))
  let result ← reverse (session.unitSeeds session.tape.outputs oind [[0]])
  return result.sensitivities.getLastD []

def gradient (inputs : List (List α)) (oind : Nat) : SessionM α (List (List α)) := do
  (← get).gradientBy (reverseAd inputs) oind

end Session

end Autodiff
