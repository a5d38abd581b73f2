import CookingIsa.Pattern.Basic

/-!
# Encoding operands

To encode operands is to put each into its field, beside the fixed bits of the pattern. A value that
does not fit its field is refused, never cut.
-/

namespace CookingIsa

inductive EncodeError where
  | operandCount (expected got : Nat)
  | outOfRange (operand : Nat) (value : Int) (width : Nat)
deriving DecidableEq, Repr

def EncodeError.message : EncodeError → String
  | operandCount expected got => s!"expected {expected} operands, got {got}"
  | outOfRange operand value width =>
    s!"operand {operand} value {value} does not fit its {width}-bit field"

/-- The word with a value put into a field, whose bits are still zero. -/
def Field.insert (f : Field) (value : Int) (w : Word) : Except EncodeError Word :=
  if 0 ≤ value ∧ value < (1 <<< f.width : Nat) then .ok (w ||| f.place (BitVec.ofInt 32 value))
  else .error (.outOfRange f.operand value f.width)

namespace Pattern

/-- Puts the values into the fields in order. -/
def insertAll : List Field → List Int → Word → Except EncodeError Word
  | f :: fields, value :: values, w => do insertAll fields values (← f.insert value w)
  | _, _, w => .ok w

/-- The word with these operands, which are as many as the fields. -/
def encode (p : Pattern) (operands : List Int) : Except EncodeError Word :=
  if operands.length = p.fields.length then insertAll p.fields operands p.expected
  else .error (.operandCount p.fields.length operands.length)

end Pattern

end CookingIsa
