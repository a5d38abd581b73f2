/-!
# Reading numerals

A numeral is read from the left into a number below a limit, and the first thing that is wrong
decides: a character that is no digit, or a digit that takes the number to the limit. A sign in
front is allowed, a minus only where negative numbers are.
-/

namespace CookingIsa.Text

/-- Why a text is no numeral, or not one in range. -/
inductive NumeralError where
  | empty
  | invalidDigit
  | tooLarge
  | tooSmall
deriving DecidableEq, Repr

def NumeralError.message : NumeralError → String
  | .empty => "cannot parse integer from empty string"
  | .invalidDigit => "invalid digit found in string"
  | .tooLarge => "number too large to fit in target type"
  | .tooSmall => "number too small to fit in target type"

/-- The value of a digit in a radix up to 16; letters count in either case. -/
def digitValue? (radix : Nat) (c : Char) : Option Nat :=
  let value :=
    if '0' ≤ c ∧ c ≤ '9' then c.toNat - '0'.toNat
    else if 'a' ≤ c ∧ c ≤ 'f' then c.toNat - 'a'.toNat + 10
    else if 'A' ≤ c ∧ c ≤ 'F' then c.toNat - 'A'.toNat + 10
    else 16
  if value < radix then some value else none

/-- Reads digits behind the number `n`, which is to stay below `limit`. -/
def readDigits (radix limit : Nat) (overflow : NumeralError) :
    List Char → (n : Nat) → Except NumeralError Nat
  | [], n => .ok n
  | c :: cs, n =>
    match digitValue? radix c with
    | none => .error .invalidDigit
    | some d =>
      if n * radix + d < limit then readDigits radix limit overflow cs (n * radix + d)
      else .error overflow

/-- Reads an unsigned number below `limit`. A plus may stand in front of the digits. -/
def readUnsigned (radix limit : Nat) : List Char → Except NumeralError Nat
  | [] => .error .empty
  | '+' :: c :: cs => readDigits radix limit .tooLarge (c :: cs) 0
  | cs => readDigits radix limit .tooLarge cs 0

/-- Reads a number from `-limit` up to but without `limit`. A sign may stand in front of the
digits. -/
def readSigned (radix limit : Nat) : List Char → Except NumeralError Int
  | [] => .error .empty
  | '+' :: c :: cs => (readDigits radix limit .tooLarge (c :: cs) 0).map Int.ofNat
  | '-' :: c :: cs =>
    (readDigits radix (limit + 1) .tooSmall (c :: cs) 0).map fun n => -Int.ofNat n
  | cs => (readDigits radix limit .tooLarge cs 0).map Int.ofNat

end CookingIsa.Text
