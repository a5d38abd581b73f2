import CookingIsa.Register
import CookingIsa.Word

/-!
# Literals on the command line

Words and integers are written in decimal, or in hexadecimal behind `0x`. An operand is a register
where it can be one, and else an integer. The number behind a minus is negated in 64 bits, which can
overflow; whoever reads an integer passes this on.
-/

namespace CookingIsa.CommandLine

/-- The number that a word is written as. The digits of a hexadecimal number may be grouped by
underscores. -/
def wordNumber (text : String) : Except Text.NumeralError Nat :=
  match text.toList with
  | '0' :: 'x' :: digits => Text.readUnsigned 16 UInt32.size (digits.filter fun c => c ≠ '_')
  | '0' :: 'X' :: digits => Text.readUnsigned 16 UInt32.size (digits.filter fun c => c ≠ '_')
  | digits => Text.readUnsigned 10 UInt32.size digits

/-- The word that a text stands for. -/
def word (text : String) : Except Text.NumeralError Word :=
  (wordNumber text).map (BitVec.ofNat 32)

/-- Why no integer comes of a text. -/
inductive IntegerError where
  /-- The text is none, or not one in range. -/
  | refused
  /-- A number comes up on the way that 64 bits cannot hold. -/
  | overflow
deriving DecidableEq, Repr

/-- The number behind the sign of an integer, which may have a sign of its own. -/
def magnitude (digits : List Char) : Except IntegerError Int :=
  let number := match digits with
    | '0' :: 'x' :: digits => Text.readSigned 16 (UInt64.size / 2) digits
    | digits => Text.readSigned 10 (UInt64.size / 2) digits
  number.mapError fun _ => .refused

/-- The opposite of a number of 64 bits, if it is one as well. -/
def negate (n : Int) : Except IntegerError Int :=
  if -0x8000000000000000 ≤ -n ∧ -n < 0x8000000000000000 then .ok (-n) else .error .overflow

/-- The number that a text stands for, before it is known to fit a word. -/
def number (text : String) : Except IntegerError Int :=
  match text.toList with
  | '-' :: digits => do negate (← magnitude digits)
  | digits => magnitude digits

/-- The integer that a text stands for, signed or unsigned, as the signed value of its word. -/
def integer (text : String) : Except IntegerError Int := do
  let n ← number text
  if -0x80000000 ≤ n ∧ n < 0x100000000 then return (BitVec.ofInt 32 n).toInt
  else throw .refused

/-- The operand that a text stands for. -/
def operand (text : String) : Except IntegerError Int :=
  match Register.ofText? text with
  | some n => .ok n
  | none => integer text

/-- The register and the value of an assignment such as `t0=5`. The value is looked at only if the
register exists. -/
def assignment (text : String) : Except IntegerError (Nat × Int) :=
  match text.toList.span fun c => c ≠ '=' with
  | (register, _ :: value) =>
    match Register.ofText? (String.ofList register) with
    | some n => do return (n, ← integer (String.ofList value))
    | none => .error .refused
  | (_, []) => .error .refused

end CookingIsa.CommandLine
