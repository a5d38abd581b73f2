import CookingIsa.Decimal.Binary64

/-!
# Shortest decimals

A floating-point number is written with the fewest digits that still round to it: as a multiple of
the largest power of ten of which some multiple rounds to it, and of two such multiples as the
nearer one.
-/

namespace CookingIsa.Decimal

/-- The number `coefficient * 10 ^ exponent`. -/
structure Scientific where
  coefficient : Nat
  exponent : Int
deriving DecidableEq, Repr

namespace Binary64

/-- A positive number between the ends of the interval that rounds to it, all in the same unit. The
ends belong to the interval if the significand is even. -/
structure Interval where
  lower : Nat
  value : Nat
  upper : Nat
  unit : Nat
  closed : Bool

/-- The interval of a positive number. Below a power of two the numbers lie closer. -/
def interval (a : Binary64) : Interval :=
  let m := 4 * a.significand
  let below := if a.significand = leastNormal ∧ leastExponent < a.exponent then 1 else 2
  let e := a.exponent - 2
  let scale := 1 <<< e.toNat
  { lower := (m - below) * scale
    value := m * scale
    upper := (m + 2) * scale
    unit := 1 <<< (-e).toNat
    closed := a.significand % 2 = 0 }

/-- The interval in units of a power of ten. -/
def Interval.inTens (i : Interval) (exponent : Int) : Interval :=
  let scale := Nat.pow 10 (-exponent).toNat
  { lower := i.lower * scale
    value := i.value * scale
    upper := i.upper * scale
    unit := i.unit * Nat.pow 10 exponent.toNat
    closed := i.closed }

/-- Whether a multiple of the unit lies in the interval. -/
def Interval.contains (i : Interval) (n : Nat) : Bool :=
  if i.closed then i.lower ≤ n * i.unit && n * i.unit ≤ i.upper
  else i.lower < n * i.unit && n * i.unit < i.upper

/-- The multiple of the unit that lies in the interval and nearest to the value, an even one if two
are as near. -/
def Interval.nearest? (i : Interval) : Option Nat :=
  let below := i.value / i.unit
  let twice := 2 * (i.value % i.unit)
  let first := if twice < i.unit ∨ twice = i.unit ∧ below % 2 = 0 then below else below + 1
  [first, below, below + 1].find? i.contains

/-- Tries powers of ten from the exponent `exponent` downwards. -/
def coarsest (i : Interval) : (steps : Nat) → (exponent : Int) → Scientific
  | 0, exponent => ⟨0, exponent⟩
  | steps + 1, exponent =>
    match (i.inTens exponent).nearest? with
    | some n => ⟨n, exponent⟩
    | none => coarsest i steps (exponent - 1)

/-- The shortest decimal that rounds to the number. No number reaches `10 ^ 309`, and all are whole
multiples of `10 ^ (-1074)`. -/
def shortest (a : Binary64) : Scientific :=
  if a.significand = 0 then ⟨0, 0⟩ else coarsest a.interval 1384 309

end Binary64

end CookingIsa.Decimal
