import CookingIsa.Ingredient
import CookingIsa.Word

/-!
# Faults

An instruction that cannot be carried out raises a fault. Some faults have a cause code, by which
the machine around tells them apart.
-/

namespace CookingIsa

/-- Why an address names no word of the memory. -/
inductive AddressError where
  | misaligned (addr : Word)
  | outOfRange (addr : Word)
deriving DecidableEq, Repr

namespace AddressError

def addr : AddressError → Word
  | misaligned a => a
  | outOfRange a => a

def message : AddressError → String
  | misaligned a => s!"address {a.text} is not word aligned"
  | outOfRange a => s!"address {a.text} is out of range"

end AddressError

/-- Why a console gave no line, or took none. -/
inductive ConsoleError where
  /-- No scripted line is left. -/
  | exhausted
  | endOfStream
  /-- The line is not encoded in UTF-8. -/
  | invalidText
  | closed
deriving DecidableEq, Repr

def ConsoleError.message : ConsoleError → String
  | exhausted => "scripted input exhausted"
  | endOfStream => "stdin closed while waiting for input"
  | invalidText => "stream did not contain valid UTF-8"
  | closed => "closed"

inductive FaultKind where
  | arithmeticOverflow
  | divideByZero
  | addressLoad
  | addressStore
  | unsetSlot
  | console
deriving DecidableEq, Repr

namespace FaultKind

def name : FaultKind → String
  | arithmeticOverflow => "ArithmeticOverflow"
  | divideByZero => "DivideByZero"
  | addressLoad => "AddressLoad"
  | addressStore => "AddressStore"
  | unsetSlot => "UnsetSlot"
  | console => "Console"

/-- The cause code of the machine, for the faults it knows of. -/
def cause? : FaultKind → Option Nat
  | addressLoad => some 4
  | addressStore => some 5
  | arithmeticOverflow => some 12
  | divideByZero => some 13
  | unsetSlot => none
  | console => none

end FaultKind

/-- Why an instruction could not be carried out. -/
inductive Fault where
  | overflow
  | divideByZero
  | load (error : AddressError)
  | store (error : AddressError)
  | unchosen (i : Ingredient)
  | console (error : ConsoleError)
deriving DecidableEq, Repr

namespace Fault

def kind : Fault → FaultKind
  | overflow => .arithmeticOverflow
  | divideByZero => .divideByZero
  | load _ => .addressLoad
  | store _ => .addressStore
  | unchosen _ => .unsetSlot
  | console _ => .console

def message : Fault → String
  | overflow => "arithmetic overflow"
  | divideByZero => "division by zero"
  | load e => s!"load address error: {e.message}"
  | store e => s!"store address error: {e.message}"
  | unchosen i => s!"no {i.name} was chosen for the dish"
  | console e => s!"console error: {e.message}"

end Fault

end CookingIsa
