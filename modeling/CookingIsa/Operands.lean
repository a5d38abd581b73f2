/-!
# Operand lists

An instruction takes at most three operands. A register operand is a register number, and an
immediate is its signed value.
-/

namespace CookingIsa

structure Operands where
  toList : List Int
  length_le : toList.length ≤ 3
deriving DecidableEq, Repr

namespace Operands

/-- The first three values of a list, or all of a shorter one. -/
def ofList (values : List Int) : Operands := ⟨values.take 3, List.length_take_le 3 values⟩

def length (o : Operands) : Nat := o.toList.length

def get? (o : Operands) (i : Nat) : Option Int := o.toList[i]?

/-- The operands as they are shown in events: three values with zeros for the missing ones, and how
many there are. -/
def text (o : Operands) : String :=
  let shown := (o.toList ++ List.replicate (3 - o.length) 0).map fun v => toString v
  "Operands \x7b vals: [" ++ String.intercalate ", " shown ++ "], len: " ++ toString o.length ++
    " \x7d"

theorem toList_ofList {values : List Int} (h : values.length ≤ 3) :
    (ofList values).toList = values := List.take_of_length_le h

end Operands

end CookingIsa
