/-!
# Policies

What an instruction does in the cases that the instruction set leaves open: whether arithmetic may
overflow, whether a dish may lack an ingredient, and which registers a host call reads.
-/

namespace CookingIsa

/-- What becomes of a result that does not fit a register. -/
inductive ArithmeticMode where
  /-- It is a fault. -/
  | strict
  /-- Its low bits are kept, except by the addition of an immediate. -/
  | lenient
deriving DecidableEq, Repr

def ArithmeticMode.name : ArithmeticMode → String
  | strict => "strict"
  | lenient => "lenient"

/-- What becomes of a dish with an ingredient that was never chosen. -/
inductive UnchosenPolicy where
  /-- The ingredient is left empty. -/
  | empty
  /-- Presenting the dish is a fault. -/
  | fault
deriving DecidableEq, Repr

def UnchosenPolicy.name : UnchosenPolicy → String
  | empty => "empty"
  | fault => "fault"

/-- How the instructions of a session behave. -/
structure Policy where
  arithmetic : ArithmeticMode
  unchosen : UnchosenPolicy
  selectorRegister : Nat
  argumentRegister : Nat
deriving DecidableEq, Repr

end CookingIsa
