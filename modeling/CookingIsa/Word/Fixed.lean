import CookingIsa.Word

/-!
# The fixed fields of a word

The MIPS word format cuts a word at fixed places, whatever the instruction: six bits of opcode,
three registers of five bits, a shift amount and a function code. The low half is the immediate.
-/

namespace CookingIsa.Word

abbrev rsPosition : Nat := 21

abbrev rtPosition : Nat := 16

abbrev rdPosition : Nat := 11

abbrev registerWidth : Nat := 5

/-- The width of an immediate, which fills the low half of the word. -/
abbrev immediateWidth : Nat := 16

def opcode (w : Word) : Nat := ((w >>> 26) &&& 0x3f#32).toNat

def rs (w : Word) : Nat := ((w >>> rsPosition) &&& 0x1f#32).toNat

def rt (w : Word) : Nat := ((w >>> rtPosition) &&& 0x1f#32).toNat

def rd (w : Word) : Nat := ((w >>> rdPosition) &&& 0x1f#32).toNat

def shamt (w : Word) : Nat := ((w >>> 6) &&& 0x1f#32).toNat

def funct (w : Word) : Nat := (w &&& 0x3f#32).toNat

/-- Bits 0 to 15, unsigned. -/
def imm16 (w : Word) : Nat := (w &&& 0xffff#32).toNat

end CookingIsa.Word
