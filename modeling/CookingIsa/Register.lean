import CookingIsa.Text.Numeral

/-!
# Register names

The 32 registers have conventional names. A reference to a register is its name or its number, with
or without a dollar sign in front.
-/

namespace CookingIsa.Register

abbrev count : Nat := 32

def names : List String :=
  ["zero", "at", "v0", "v1", "a0", "a1", "a2", "a3", "t0", "t1", "t2", "t3", "t4", "t5", "t6", "t7",
   "s0", "s1", "s2", "s3", "s4", "s5", "s6", "s7", "t8", "t9", "k0", "k1", "gp", "sp", "fp", "ra"]

/-- The name of a register, or a question mark for a number that is none. -/
def name (n : Nat) : String := names.getD n "?"

/-- The text without a dollar sign in front, if it has one. -/
def stripDollar : List Char → List Char
  | '$' :: cs => cs
  | cs => cs

/-- The number of the register that a text refers to. A text that is a number is never looked up as
a name. -/
def ofText? (text : String) : Option Nat :=
  let cs := stripDollar text.toList
  match Text.readUnsigned 10 UInt64.size cs with
  | .ok n => if n < count then some n else none
  | .error _ => if String.ofList cs = "s8" then some 30 else names.idxOf? (String.ofList cs)

end CookingIsa.Register
