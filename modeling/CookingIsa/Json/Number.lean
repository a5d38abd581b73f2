import CookingIsa.Decimal.Shortest
import CookingIsa.Json.Token

/-!
# JSON numbers

A number without a fraction and an exponent is a whole number if 64 bits hold it, and any other is
a floating-point number. Of the digits of such a number only those count that fit 64 bits, and the
rest is a power of ten by which they are multiplied or divided, so the result can be off by a
little.
-/

namespace CookingIsa.Json

open Decimal

/-- What a number means. -/
inductive Number where
  | natural (n : Nat)
  /-- A number below zero, by its magnitude. -/
  | negative (magnitude : Nat)
  | float (isNegative : Bool) (magnitude : Binary64)
deriving DecidableEq, Repr

def digitsValue (digits : List Char) : Nat :=
  digits.foldl (fun n c => 10 * n + (c.toNat - '0'.toNat)) 0

/-- A whole number of 64 bits times a power of ten. -/
structure Scaled where
  significand : Nat
  exponent : Int
deriving DecidableEq, Repr

namespace Scaled

/-- Adds the digits in front of the point. From the first on that does not fit, each is counted as a
power of ten. -/
def appendWhole : List Char → Scaled → Scaled
  | [], s => s
  | c :: cs, s =>
    let n := 10 * s.significand + (c.toNat - '0'.toNat)
    if n < UInt64.size then appendWhole cs { s with significand := n }
    else { s with exponent := (c :: cs).length }

/-- Adds the digits behind the point. From the first on that does not fit, they are left out. -/
def appendFraction : List Char → Scaled → Scaled
  | [], s => s
  | c :: cs, s =>
    let n := 10 * s.significand + (c.toNat - '0'.toNat)
    if n < UInt64.size then appendFraction cs ⟨n, s.exponent - 1⟩ else s

/-- The number as it is written, its digits cut to 64 bits. -/
def ofNumeral (n : Numeral) : Scaled :=
  let s := appendFraction n.fraction (appendWhole n.whole ⟨0, 0⟩)
  match n.exponent with
  | none => s
  | some (true, digits) => { s with exponent := s.exponent - digitsValue digits }
  | some (false, digits) => { s with exponent := s.exponent + digitsValue digits }

/-- The power of ten by which a number is divided at a time when its exponent is too low. -/
def stride : Nat := 308

/-- Divides by `10 ^ stride` until the exponent is no lower than `-stride` or nothing is left. -/
def lift : (steps : Nat) → Binary64 → Int → Option (Binary64 × Int)
  | 0, m, exponent => some (m, exponent)
  | steps + 1, m, exponent =>
    if m.significand = 0 ∨ -stride ≤ exponent then some (m, exponent)
    else do
      let m ← m.div (← Binary64.ofQuotient (Nat.pow 10 stride) 1)
      lift steps m (exponent + stride)

/-- The nearest floating-point number that this way of computing finds, if it is not too large. -/
def toBinary64? (s : Scaled) : Option Binary64 := do
  let m ← Binary64.ofQuotient s.significand 1
  let (m, exponent) ← lift 4 m s.exponent
  if m.significand = 0 then some m
  else if stride < exponent then none
  else
    let power ← Binary64.ofQuotient (Nat.pow 10 exponent.natAbs) 1
    if 0 ≤ exponent then m.mul power else m.div power

end Scaled

/-- What a number means, if it is not too large. -/
def Numeral.number? (n : Numeral) : Option Number :=
  let magnitude := digitsValue n.whole
  if n.fraction.isEmpty ∧ n.exponent.isNone ∧ ¬n.negative ∧ magnitude < UInt64.size then
    some (.natural magnitude)
  else if n.fraction.isEmpty ∧ n.exponent.isNone ∧ n.negative ∧ 0 < magnitude
      ∧ magnitude ≤ UInt64.size / 2 then
    some (.negative magnitude)
  else (Scaled.ofNumeral n).toBinary64?.map (.float n.negative)

/-- The decimal text of a floating-point number: positional for exponents of moderate size, always
with a point; otherwise with a signed exponent, and a point only between digits. -/
def floatText (isNegative : Bool) (magnitude : Binary64) : String :=
  let s := magnitude.shortest
  let digits := Nat.toDigits 10 s.coefficient
  let count : Int := digits.length
  let point := count + s.exponent
  let text :=
    if 0 ≤ s.exponent ∧ point ≤ 16 then
      digits ++ List.replicate s.exponent.toNat '0' ++ ['.', '0']
    else if 0 < point ∧ point ≤ 16 then
      digits.take point.toNat ++ '.' :: digits.drop point.toNat
    else if -5 < point ∧ point ≤ 0 then
      ['0', '.'] ++ List.replicate (-point).toNat '0' ++ digits
    else
      let mantissa := match digits with
        | [d] => [d]
        | digits => digits.take 1 ++ '.' :: digits.drop 1
      let sign := if 0 < point then '+' else '-'
      mantissa ++ 'e' :: sign :: Nat.toDigits 10 (point - 1).natAbs
  String.ofList (if isNegative then '-' :: text else text)

def Number.text : Number → String
  | natural n => "integer `" ++ toString n ++ "`"
  | negative magnitude => "integer `-" ++ toString magnitude ++ "`"
  | float isNegative magnitude => "floating point `" ++ floatText isNegative magnitude ++ "`"

end CookingIsa.Json
