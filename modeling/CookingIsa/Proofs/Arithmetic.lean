import Mathlib
import CookingIsa.Arithmetic

/-!
# Arithmetic on words and on numbers

A word stands for a number with sign, and arithmetic on words is that on the numbers as long as the
result fits a word. Of a result that does not fit, strict arithmetic makes a fault, and lenient
arithmetic the number with the same remainder that does fit (`settle`). Half a number always fits,
and so does half a sum if the sum has bits enough.
-/

namespace CookingIsa.Arithmetic

/-- A number that a word stands for. -/
def Fits (r : Int) : Prop := -2 ^ 31 ≤ r ∧ r < 2 ^ 31

instance (r : Int) : Decidable (Fits r) :=
  inferInstanceAs (Decidable (_ ∧ _))

/-- The word of an exact result, unless it must fit and does not. -/
def settle (mode : ArithmeticMode) (r : Int) : Except Fault Word :=
  if mode = .strict ∧ ¬ Fits r then .error .overflow else .ok (BitVec.ofInt 32 r)

variable {mode : ArithmeticMode} {a b : Word} {r : Int}

theorem fits_toInt (a : Word) : Fits a.toInt := ⟨a.le_toInt, a.toInt_lt⟩

theorem bmod_of_fits (h : Fits r) : r.bmod (2 ^ 32) = r := by
  obtain ⟨hlow, hhigh⟩ := h
  exact Int.bmod_eq_of_le (by norm_num; omega) (by norm_num; omega)

theorem toInt_ofInt_of_fits (h : Fits r) : (BitVec.ofInt 32 r).toInt = r := by
  rw [BitVec.toInt_ofInt, bmod_of_fits h]

theorem fits_bmod (r : Int) : Fits (r.bmod (2 ^ 32)) := by
  rw [← BitVec.toInt_ofInt]
  exact fits_toInt _

theorem ofInt_bmod (r : Int) : BitVec.ofInt 32 (r.bmod (2 ^ 32)) = BitVec.ofInt 32 r :=
  BitVec.eq_of_toInt_eq (by rw [BitVec.toInt_ofInt, BitVec.toInt_ofInt, Int.bmod_bmod])

theorem settle_of_fits (h : Fits r) : settle mode r = .ok (BitVec.ofInt 32 r) :=
  if_neg fun hover => hover.2 h

theorem settle_lenient (r : Int) : settle .lenient r = .ok (BitVec.ofInt 32 r) :=
  if_neg fun hover => nomatch hover.1

theorem fits_tdiv_two (hlow : -2 ^ 32 ≤ r) (hhigh : r < 2 ^ 32) : Fits (r.tdiv 2) := by
  have hsign : Int.sign 2 = 1 := rfl
  rw [Fits, Int.tdiv_eq_ediv, hsign]
  split_ifs <;> omega

theorem fits_halve (h : Fits r) : Fits (r.tdiv 2) := by
  obtain ⟨hlow, hhigh⟩ := h
  exact fits_tdiv_two (by omega) (by omega)

theorem fits_average (a b : Word) : Fits ((a.toInt + b.toInt).tdiv 2) := by
  obtain ⟨halow, hahigh⟩ := fits_toInt a
  obtain ⟨hblow, hbhigh⟩ := fits_toInt b
  exact fits_tdiv_two (by omega) (by omega)

theorem resolve_eq {overflows : Bool} {wrapped : Word} (hover : overflows = true ↔ ¬ Fits r)
    (hwrapped : wrapped = BitVec.ofInt 32 r) : resolve mode overflows wrapped = settle mode r := by
  simp only [resolve, settle, hover, hwrapped]

theorem add_eq : add mode a b = settle mode (a.toInt + b.toInt) := by
  refine resolve_eq ?_ (by rw [BitVec.ofInt_add, BitVec.ofInt_toInt, BitVec.ofInt_toInt])
  simp only [BitVec.saddOverflow, Fits, Bool.or_eq_true, decide_eq_true_eq]
  omega

theorem subtract_eq : subtract mode a b = settle mode (a.toInt - b.toInt) := by
  refine resolve_eq ?_ (BitVec.eq_of_toInt_eq (by rw [BitVec.toInt_sub, BitVec.toInt_ofInt]))
  simp only [BitVec.ssubOverflow, Fits, Bool.or_eq_true, decide_eq_true_eq]
  omega

theorem multiply_eq : multiply mode a b = settle mode (a.toInt * b.toInt) := by
  refine resolve_eq ?_ (by rw [BitVec.ofInt_mul, BitVec.ofInt_toInt, BitVec.ofInt_toInt])
  simp only [BitVec.smulOverflow, Fits, Bool.or_eq_true, decide_eq_true_eq]
  omega

theorem double_eq : double mode a = settle mode (2 * a.toInt) := by
  rw [double, multiply_eq, Int.mul_comm]
  rfl

/-- The only quotient that does not fit is that of the least number and minus one. -/
theorem divide_eq (hb : b.toInt ≠ 0) : divide mode a b = settle mode (a.toInt.tdiv b.toInt) := by
  have hzero : b ≠ 0#32 := fun h => hb (by rw [h]; rfl)
  rw [divide, if_neg hzero]
  refine resolve_eq ?_ (BitVec.eq_of_toInt_eq (by rw [BitVec.toInt_sdiv, BitVec.toInt_ofInt]))
  rw [BitVec.sdivOverflow_eq]
  by_cases h : a = BitVec.intMin 32 ∧ b = BitVec.allOnes 32
  · obtain ⟨rfl, rfl⟩ := h
    decide
  · have hquotient := fits_toInt (a.sdiv b)
    rw [BitVec.toInt_sdiv_of_ne_or_ne a b (not_and_or.1 h)] at hquotient
    simpa [hquotient] using h

theorem divide_zero (hb : b.toInt = 0) : divide mode a b = .error .divideByZero := by
  obtain rfl : b = 0#32 := BitVec.eq_of_toInt_eq hb
  rfl

theorem halve_eq : halve a = BitVec.ofInt 32 (a.toInt.tdiv 2) :=
  BitVec.eq_of_toInt_eq (by rw [halve, BitVec.toInt_sdiv, BitVec.toInt_ofInt]; rfl)

theorem average_strict_eq : average .strict a b = BitVec.ofInt 32 ((a.toInt + b.toInt).tdiv 2) := by
  obtain ⟨halow, hahigh⟩ := fits_toInt a
  obtain ⟨hblow, hbhigh⟩ := fits_toInt b
  have hsum : (a.signExtend 64 + b.signExtend 64).toInt = a.toInt + b.toInt := by
    rw [BitVec.toInt_add, BitVec.toInt_signExtend_of_le (by omega),
      BitVec.toInt_signExtend_of_le (by omega)]
    exact Int.bmod_eq_of_le (by norm_num; omega) (by norm_num; omega)
  refine BitVec.eq_of_toInt_eq ?_
  rw [average, ← BitVec.signExtend_eq_setWidth_of_le _ (by omega), BitVec.toInt_signExtend,
    BitVec.toInt_sdiv, hsum, BitVec.toInt_ofInt]
  exact Int.bmod_bmod_of_dvd (by decide)

theorem average_lenient_eq :
    average .lenient a b = BitVec.ofInt 32 (((a.toInt + b.toInt).bmod (2 ^ 32)).tdiv 2) := by
  rw [average, halve_eq, BitVec.toInt_add]

end CookingIsa.Arithmetic
