/-!
# Binary floating-point numbers

The numbers of the 64-bit binary format without their sign, as whole multiples of a power of two.
Every operation rounds its exact result to the nearest such number, a tie to the even one, and gives
nothing if the result is too large.
-/

namespace CookingIsa.Decimal

/-- The number `significand * 2 ^ exponent`. -/
structure Binary64 where
  significand : Nat
  exponent : Int
deriving DecidableEq, Repr

namespace Binary64

abbrev leastExponent : Int := -1074

abbrev greatestExponent : Int := 971

/-- The least significand that has all its 53 bits. One that has fewer goes with the least exponent
alone. -/
abbrev leastNormal : Nat := 1 <<< 52

def zero : Binary64 := ⟨0, leastExponent⟩

/-- The quotient of two numbers rounded to a whole number, a tie to the even one. -/
def roundQuotient (num den : Nat) : Nat :=
  let quotient := num / den
  let twice := 2 * (num % den)
  if twice < den then quotient
  else if den < twice then quotient + 1
  else quotient + quotient % 2

/-- The quotient of two numbers in units of `2 ^ e`, again as two numbers. -/
def inUnits (num den : Nat) (e : Int) : Nat × Nat := (num <<< (-e).toNat, den <<< e.toNat)

/-- The exponent for the quotient of two numbers: its significand is to have 53 bits, or fewer if
the exponent would be less than the least. -/
def exponentFor (num den : Nat) : Int :=
  let e : Int := num.log2 - den.log2 - 53
  let (n, d) := inUnits num den e
  max (if n / d < 2 * leastNormal then e else e + 1) leastExponent

/-- The quotient of two numbers, rounded. -/
def ofQuotient (num den : Nat) : Option Binary64 :=
  if num = 0 then some zero
  else
    let e := exponentFor num den
    let (n, d) := inUnits num den e
    let m := roundQuotient n d
    let (m, e) := if m = 2 * leastNormal then (leastNormal, e + 1) else (m, e)
    if e ≤ greatestExponent then some ⟨m, e⟩ else none

/-- The exact value as the quotient of two numbers. -/
def quotient (a : Binary64) : Nat × Nat :=
  (a.significand <<< a.exponent.toNat, 1 <<< (-a.exponent).toNat)

def mul (a b : Binary64) : Option Binary64 :=
  ofQuotient (a.quotient.1 * b.quotient.1) (a.quotient.2 * b.quotient.2)

def div (a b : Binary64) : Option Binary64 :=
  ofQuotient (a.quotient.1 * b.quotient.2) (a.quotient.2 * b.quotient.1)

end Binary64

end CookingIsa.Decimal
