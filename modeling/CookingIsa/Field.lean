import CookingIsa.Word

/-!
# Operand fields

A field is a run of bits of a word that holds one operand. Extracting reads the run as a word of its
own, and placing puts a value where extracting will find it.
-/

namespace CookingIsa

/-- The run of `width` bits from bit `lsb` upwards, which holds operand number `operand`. -/
structure Field where
  operand : Nat
  lsb : Nat
  width : Nat
deriving DecidableEq, Repr

namespace Field

/-- The bits of a word that belong to the field. -/
def mask (f : Field) : Word := Word.lowMask f.width <<< f.lsb

/-- The content of the field, moved down to bit 0. -/
def extract (f : Field) (w : Word) : Word := (w >>> f.lsb) &&& Word.lowMask f.width

/-- The value cut to the width of the field and moved up to its place. -/
def place (f : Field) (v : Word) : Word := (v &&& Word.lowMask f.width) <<< f.lsb

end Field

end CookingIsa
