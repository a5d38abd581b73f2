import CookingIsa.Fault
import CookingIsa.Policy

/-!
# Arithmetic on words

Words are signed in arithmetic. A result that does not fit is a fault in strict mode and keeps its
low bits in lenient mode; a division by zero is a fault in both. Quotients are cut toward zero.
-/

namespace CookingIsa.Arithmetic

/-- The low bits of a result, unless it must not overflow and does. -/
def resolve (mode : ArithmeticMode) (overflows : Bool) (wrapped : Word) : Except Fault Word :=
  if mode = .strict ∧ overflows then .error .overflow else .ok wrapped

def add (mode : ArithmeticMode) (a b : Word) : Except Fault Word :=
  resolve mode (a.saddOverflow b) (a + b)

def subtract (mode : ArithmeticMode) (a b : Word) : Except Fault Word :=
  resolve mode (a.ssubOverflow b) (a - b)

def multiply (mode : ArithmeticMode) (a b : Word) : Except Fault Word :=
  resolve mode (a.smulOverflow b) (a * b)

/-- The quotient, which overflows for the least word divided by minus one. -/
def divide (mode : ArithmeticMode) (a b : Word) : Except Fault Word :=
  if b = 0#32 then .error .divideByZero else resolve mode (a.sdivOverflow b) (a.sdiv b)

def double (mode : ArithmeticMode) (a : Word) : Except Fault Word := multiply mode a 2#32

def halve (a : Word) : Word := a.sdiv 2#32

/-- Half the sum. In strict mode the sum has all the bits it needs, in lenient mode it has those of
a word. -/
def average (mode : ArithmeticMode) (a b : Word) : Word :=
  match mode with
  | .strict => ((a.signExtend 64 + b.signExtend 64).sdiv 2#64).setWidth 32
  | .lenient => halve (a + b)

end CookingIsa.Arithmetic
