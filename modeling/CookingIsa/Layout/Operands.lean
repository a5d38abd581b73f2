import CookingIsa.Layout.Basic
import CookingIsa.Operands
import CookingIsa.Pattern.Encoding
import CookingIsa.Word.Fixed

/-!
# Operands in their layout

The layout decides which fields are legal and what their bits mean: a register field is a register
number, and the third field of the register-immediate layout is a signed number of 16 bits. Written
down, an immediate may also be given unsigned.
-/

namespace CookingIsa

/-- A field as wide as a register number, at one of the given places. -/
def Field.IsRegister (f : Field) (places : List Nat) : Prop :=
  f.width = Word.registerWidth ∧ f.lsb ∈ places

instance (f : Field) (places : List Nat) : Decidable (f.IsRegister places) :=
  inferInstanceAs (Decidable (_ ∧ _))

namespace Layout

open Word

/-- The first rule that the fields of a pattern violate. -/
def violation? (l : Layout) (p : Pattern) : Option Violation :=
  match l, p.fields with
  | threeRegister, fields =>
    if ∀ f ∈ fields, f.IsRegister [rsPosition, rtPosition, rdPosition] then none
    else some .registerFields
  | registerImmediate, [first, second, third] =>
    if third.width ≠ immediateWidth ∨ third.lsb ≠ 0 then some .immediate
    else if first.IsRegister [rsPosition, rtPosition]
        ∧ second.IsRegister [rsPosition, rtPosition] then none
    else some .registerPlaces
  | registerImmediate, _ => some .fieldCount

/-- The operand that a word holds in a field. -/
def operandOf (l : Layout) (w : Word) (f : Field) : Int :=
  if l = registerImmediate ∧ f.operand = 2 then signedLow (f.extract w) f.width
  else (f.extract w).toInt

def extract (l : Layout) (p : Pattern) (w : Word) : Operands :=
  ⟨p.fields.map (l.operandOf w), by simpa using p.length_fields_le⟩

/-- The value to be put into the field of operand `i`: a negative immediate of 16 bits becomes the
unsigned number with the same bits. -/
def fieldValue (l : Layout) (i : Nat) (value : Int) : Int :=
  if l = registerImmediate ∧ i = 2 ∧ -0x8000 ≤ value ∧ value < 0 then value + 0x10000 else value

def encode (l : Layout) (p : Pattern) (operands : List Int) : Except EncodeError Word :=
  p.encode (operands.mapIdx l.fieldValue)

end Layout

end CookingIsa
