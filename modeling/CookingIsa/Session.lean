import CookingIsa.ChefAssembly
import CookingIsa.Config.Basic
import CookingIsa.Execution

/-!
# Sessions

A session steps one word after another: it decodes the word with its instruction set and executes it
on the machine with its own basket. A fault is recorded by the machine and ends the step, not the
session.
-/

namespace CookingIsa

structure Session where
  instructions : InstructionSet
  policy : Policy
  traced : Bool
  basket : Basket

inductive StepError where
  | noMatch (word : Word)
  | fault (f : Fault)
  /-- Something is accessed that is not there. -/
  | outOfBounds
deriving DecidableEq, Repr

namespace StepError

def message : StepError → String
  | noMatch word => noMatchMessage word
  | fault f => f.message
  | outOfBounds => "access out of bounds"

def ofStop : Stop → StepError
  | .fault f => .fault f
  | .outOfBounds => .outOfBounds

end StepError

/-- What comes of a step. The basket is the one that the word was executed with. -/
structure Step (κ : Type) where
  result : Except StepError Control
  basket : Basket
  machine : Machine κ
  events : List Event

namespace Step

variable {κ : Type}

def noMatch (w : Word) (b : Basket) (m : Machine κ) : Step κ := ⟨.error (.noMatch w), b, m, []⟩

def ofOutcome (d : Decoding) (o : Outcome κ) : Step κ :=
  ⟨o.result.mapError .ofStop, o.basket, o.machine, .decoded d :: o.events⟩

/-- The step with its fault, if it raised one, recorded by the machine. -/
def recordFault (s : Step κ) (d : Decoding) : Step κ :=
  match s.result with
  | .error (.fault f) =>
    let r : FaultRecord := ⟨f.kind, d.word, d.instruction.name, f.message⟩
    { s with
      machine := { s.machine with faults := s.machine.faults ++ [r] }
      events := s.events ++ [.faultRaised r] }
  | _ => s

end Step

namespace Session

/-- A session with an instruction set, its basket empty. -/
def create (instructions : InstructionSet) (config : Config) : Except SetupError Session := do
  config.validate
  return ⟨instructions, config.policy, config.traceInstructions, .empty⟩

/-- A session with Chef Assembly. -/
def createChef (config : Config) : Except SetupError Session := do
  config.validate
  create (← ChefAssembly.instructionSet) config

def withBasket (s : Session) (basket : Basket) : Session := { s with basket }

variable {κ : Type} [Console κ]

/-- Decodes a word and executes it with the given basket. A fault is not recorded. -/
def dispatch (s : Session) (w : Word) (b : Basket) (m : Machine κ) : Step κ :=
  match s.instructions.decode? w with
  | none => .noMatch w b m
  | some d => .ofOutcome d (d.execute s.policy s.traced b m)

/-- Decodes a word and executes it with the basket of the session. A fault is recorded. -/
def step (s : Session) (w : Word) (m : Machine κ) : Step κ :=
  match s.instructions.decode? w with
  | none => .noMatch w s.basket m
  | some d => (Step.ofOutcome d (d.execute s.policy s.traced s.basket m)).recordFault d

end Session

end CookingIsa
