import CookingIsa.InstructionSet.Basic
import CookingIsa.Register

/-!
# Decoding words

A decoded word is an instruction with its operands. Written out, it is the name followed by the
operands, each register by its name.
-/

namespace CookingIsa

/-- A word with the instruction it matches and the operands it holds. -/
structure Decoding where
  word : Word
  instruction : Instruction
  operands : Operands

namespace Decoding

/-- One operand as it is written: an immediate is a number, anything else a register. -/
def operandText (layout : Layout) (i : Nat) (value : Int) : String :=
  if layout = .registerImmediate ∧ i = 2 then s!"{value}"
  else "$" ++ Register.name value.toNat

def text (d : Decoding) : String :=
  match d.operands.toList.mapIdx (operandText d.instruction.layout) with
  | [] => d.instruction.name
  | shown => d.instruction.name ++ " " ++ String.intercalate ", " shown

end Decoding

def InstructionSet.decode? (s : InstructionSet) (w : Word) : Option Decoding :=
  (s.lookup? w).map fun i => ⟨w, i, i.operandsOf w⟩

def noMatchMessage (w : Word) : String := s!"no instruction matches word {w.text}"

end CookingIsa
