import CookingIsa.Ingredient
import CookingIsa.Layout.Basic

/-!
# Operations

What the instructions do. Most of them compute a value and write it to the register that their first
operand names; the others act on the memory, the console, the branch or the basket.
-/

namespace CookingIsa

/-- The values that are written to a register. -/
inductive Computation where
  /-- The sum of a register and the immediate, which never overflows silently. -/
  | addImmediate
  | add
  | subtract
  | multiply
  | divide
  | average
  | double
  | halve
  | zero
  | move
  /-- The word of memory at a register plus the immediate. -/
  | loadWord
deriving DecidableEq, Repr

/-- What an instruction does. -/
inductive Operation where
  /-- Writes a value to the register of operand 0. -/
  | assign (c : Computation)
  /-- Asks for a branch to the immediate if two registers are equal. -/
  | branchEqual
  /-- Writes one of two lines, as a register selects. -/
  | hostCall
  /-- Writes a register to the word of memory at another register plus the immediate. -/
  | storeWord
  /-- Reads a line into the basket. -/
  | collect (i : Ingredient)
  | present
deriving DecidableEq, Repr

namespace Computation

def name : Computation → String
  | addImmediate => "add_immediate"
  | add => "add"
  | subtract => "subtract"
  | multiply => "multiply"
  | divide => "divide"
  | average => "average"
  | double => "double"
  | halve => "halve"
  | zero => "zero"
  | move => "move"
  | loadWord => "load_word"

def layout : Computation → Layout
  | addImmediate => .registerImmediate
  | loadWord => .registerImmediate
  | _ => .threeRegister

def arity : Computation → Nat
  | double => 1
  | halve => 1
  | zero => 1
  | move => 2
  | _ => 3

end Computation

namespace Operation

def layout : Operation → Layout
  | assign c => c.layout
  | branchEqual => .registerImmediate
  | storeWord => .registerImmediate
  | _ => .threeRegister

def arity : Operation → Nat
  | assign c => c.arity
  | branchEqual => 3
  | storeWord => 3
  | _ => 0

end Operation

end CookingIsa
