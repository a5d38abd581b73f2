import Mathlib
import CookingIsa.Word

/-!
# The low bits of a word

A mask of low bits leaves the remainder of a word (`toNat_and_lowMask`), and the signed reading of
the low bits is the number nearest to zero with that remainder (`signedLow_eq_bmod`). It depends on
nothing else of the word, and every number that fits the width is read back from its low bits
(`signedLow_exactly`).
-/

namespace CookingIsa

namespace Word

theorem getLsbD_lowMask (width i : Nat) :
    (lowMask width).getLsbD i = (decide (i < 32) && decide (i < width)) := by
  simp only [lowMask, bits]
  split_ifs with h
  · rw [BitVec.getLsbD_allOnes]
    by_cases hi : i < 32
    · simp [hi, show i < width by omega]
    · simp [hi]
  · have hw : width < 32 := by omega
    have hmask : (1#32 <<< width) - 1#32 = BitVec.ofNat 32 (2 ^ width - 1) := by
      have hlt : 2 ^ width < 2 ^ 32 := Nat.pow_lt_pow_right (by omega) hw
      apply BitVec.eq_of_toNat_eq
      have hpos : 0 < 2 ^ width := Nat.two_pow_pos width
      simp only [BitVec.toNat_sub, BitVec.toNat_shiftLeft, BitVec.toNat_ofNat]
      omega
    rw [hmask, BitVec.getLsbD_ofNat, Nat.testBit_two_pow_sub_one]

theorem and_not_or_and (w mask : Word) : w &&& ~~~mask ||| w &&& mask = w := by
  refine BitVec.eq_of_getLsbD_eq fun i hi => ?_
  simp only [BitVec.getLsbD_or, BitVec.getLsbD_and, BitVec.getLsbD_not, hi]
  cases mask.getLsbD i <;> simp

theorem and_eq_and_iff {v w mask : Word} :
    v &&& mask = w &&& mask ↔
      ∀ i, mask.getLsbD i = true → v.getLsbD i = w.getLsbD i := by
  constructor
  · intro h i hi
    have hbit := congrArg (·.getLsbD i) h
    simpa only [BitVec.getLsbD_and, hi, Bool.and_true] using hbit
  · intro h
    refine BitVec.eq_of_getLsbD_eq fun i _ => ?_
    rw [BitVec.getLsbD_and, BitVec.getLsbD_and]
    rcases hi : mask.getLsbD i with _ | _
    · simp only [Bool.and_false]
    · rw [h i hi]

theorem toNat_and_lowMask (v : Word) (width : Nat) :
    (v &&& lowMask width).toNat = v.toNat % 2 ^ width := by
  refine Nat.eq_of_testBit_eq fun i => ?_
  rw [BitVec.testBit_toNat, BitVec.getLsbD_and, getLsbD_lowMask, Nat.testBit_mod_two_pow,
    BitVec.testBit_toNat]
  by_cases hi : i < 32
  · simp [hi, Bool.and_comm]
  · simp [hi, BitVec.getLsbD_of_ge v i (by omega)]

theorem and_lowMask_of_lt {v : Word} {width : Nat} (h : v.toNat < 2 ^ width) :
    v &&& lowMask width = v :=
  BitVec.eq_of_toNat_eq (by rw [toNat_and_lowMask, Nat.mod_eq_of_lt h])

theorem and_lowMask_eq_iff {v w : Word} {width : Nat} :
    v &&& lowMask width = w &&& lowMask width ↔ v.toNat ≡ w.toNat [MOD 2 ^ width] := by
  rw [← BitVec.toNat_inj, toNat_and_lowMask, toNat_and_lowMask, Nat.ModEq]

/-- The signed reading of the low bits is the remainder nearest to zero. -/
theorem signedLow_eq_bmod (w : Word) {width : Nat} (hpos : 0 < width) (hle : width ≤ 32) :
    w.signedLow width = (w.toNat : Int).bmod (2 ^ width) := by
  simp only [signedLow, bits, if_neg (show width ≠ 0 by omega)]
  split_ifs with h
  · obtain rfl : width = 32 := by omega
    exact BitVec.toInt_eq_toNat_bmod w
  · obtain ⟨k, hk⟩ : ∃ k, 32 - width = k := ⟨_, rfl⟩
    have hsize : 2 ^ 32 = 2 ^ k * 2 ^ width := by
      rw [← Nat.pow_add]
      congr 1
      omega
    have heven : 2 ∣ 2 ^ width := dvd_pow_self 2 (by omega)
    have hshifted : (w <<< k).toInt = (2 ^ k : Nat) * (w.toNat : Int).bmod (2 ^ width) := by
      rw [← Int.mod_bmod_mul_of_pos _ _ (Nat.two_pow_pos k) heven, ← hsize,
        BitVec.toInt_shiftLeft, Nat.shiftLeft_eq, Nat.mul_comm]
      push_cast
      rfl
    rw [hk, BitVec.toInt_sshiftRight, Int.shiftRight_eq_div_pow, hshifted]
    push_cast
    exact Int.mul_ediv_cancel_left _ (by positivity)

/-- A number that fits `width` bits, one of them for the sign. -/
def SignedFits (width : Nat) (v : Int) : Prop := -2 ^ (width - 1) ≤ v ∧ v < 2 ^ (width - 1)

instance (width : Nat) (v : Int) : Decidable (SignedFits width v) :=
  inferInstanceAs (Decidable (_ ∧ _))

section Reading

variable {width : Nat} {v : Int}

theorem eq_signedLow_iff (w : Word) (hpos : 1 ≤ width) (hle : width ≤ 32) :
    v = w.signedLow width ↔ SignedFits width v ∧ v ≡ w.toNat [ZMOD 2 ^ width] := by
  have hhalf : (2 : Int) ^ width = 2 * 2 ^ (width - 1) := by
    rw [← pow_succ', Nat.sub_add_cancel hpos]
  have hlow : (2 : Int) ^ width / 2 = 2 ^ (width - 1) := by omega
  have hhigh : ((2 : Int) ^ width + 1) / 2 = 2 ^ (width - 1) := by omega
  rw [eq_comm, w.signedLow_eq_bmod hpos hle, Int.bmod_eq_iff (Nat.two_pow_pos width),
    Int.modEq_comm, Int.modEq_iff_dvd, SignedFits, and_assoc]
  push_cast
  rw [hlow, hhigh]

theorem signedLow_eq_signedLow_iff (w w' : Word) (hpos : 1 ≤ width) (hle : width ≤ 32) :
    w.signedLow width = w'.signedLow width ↔ w &&& lowMask width = w' &&& lowMask width := by
  obtain ⟨hfits, hw⟩ := (w.eq_signedLow_iff hpos hle).1 rfl
  obtain ⟨-, hw'⟩ := (w'.eq_signedLow_iff hpos hle).1 rfl
  rw [and_lowMask_eq_iff, ← Int.natCast_modEq_iff]
  push_cast
  constructor
  · intro h
    rw [h] at hw
    exact hw.symm.trans hw'
  · intro h
    exact (w'.eq_signedLow_iff hpos hle).2 ⟨hfits, hw.trans h⟩

/-- A number that fits is read back from its low bits. -/
theorem signedLow_ofInt (hpos : 1 ≤ width) (hle : width ≤ 32) (hv : SignedFits width v) :
    signedLow (BitVec.ofInt 32 v &&& lowMask width) width = v := by
  have hdvd : (2 : Int) ^ width ∣ 2 ^ 32 := pow_dvd_pow 2 hle
  have hword : ((BitVec.ofInt 32 v).toNat : Int) = v % 2 ^ 32 := by
    rw [BitVec.toNat_ofInt]
    omega
  have hlow : ((BitVec.ofInt 32 v &&& lowMask width).toNat : Int) = v % 2 ^ width := by
    rw [toNat_and_lowMask]
    push_cast
    rw [hword, Int.emod_emod_of_dvd v hdvd]
  refine ((eq_signedLow_iff _ hpos hle).2 ⟨hv, ?_⟩).symm
  rw [hlow]
  exact (Int.mod_modEq v _).symm

theorem signedLow_of_le (w : Word) (hle : 32 ≤ width) : w.signedLow width = w.toInt := by
  rw [signedLow, if_neg (by omega), if_pos hle]

end Reading

/-- Of the numbers that fit the width, the reading is the only one with the remainder of the word.
So two words read the same exactly if their low bits are the same, and the low bits of a number that
fits read as that number. No bits read as zero, and all widths from 32 on as the whole word. -/
theorem signedLow_exactly :
    (∀ width, 1 ≤ width → width ≤ 32 →
      (∀ (w : Word) (v : Int), v = w.signedLow width ↔
        SignedFits width v ∧ v ≡ w.toNat [ZMOD 2 ^ width]) ∧
      (∀ w w' : Word, w.signedLow width = w'.signedLow width ↔
        w &&& lowMask width = w' &&& lowMask width) ∧
      ∀ v : Int, SignedFits width v →
        signedLow (BitVec.ofInt 32 v &&& lowMask width) width = v) ∧
    ∀ w : Word, w.signedLow 0 = 0 ∧
      ∀ width, 32 ≤ width → w.signedLow width = w.signedLow 32 := by
  refine ⟨fun width hpos hle => ⟨?_, ?_, ?_⟩, fun w => ⟨?_, ?_⟩⟩
  · exact fun w v => w.eq_signedLow_iff hpos hle
  · exact fun w w' => w.signedLow_eq_signedLow_iff w' hpos hle
  · exact fun v => signedLow_ofInt hpos hle
  · exact if_pos rfl
  · intro width hle
    rw [w.signedLow_of_le hle, w.signedLow_of_le le_rfl]

/-- The least number of 16 bits is read below a high half that is not empty, and from its own low
bits, while the number with the same bits but without sign is too large. -/
theorem signedLow_exactly_least :
    1 ≤ 16 ∧ 16 ≤ 32 ∧ SignedFits 16 (-0x8000) ∧ ¬ SignedFits 16 0x8000 ∧
      -0x8000 = signedLow 0x21288000#32 16 ∧
      BitVec.ofInt 32 (-0x8000) &&& lowMask 16 = 0x00008000#32 ∧
      signedLow 0x00008000#32 16 = -0x8000 := by
  have hreads := signedLow_exactly.1 16 (by decide) (by decide)
  have hfits : SignedFits 16 (-0x8000) := by decide
  have hlow : BitVec.ofInt 32 (-0x8000) &&& lowMask 16 = 0x00008000#32 := by decide
  have hread : -0x8000 = signedLow 0x21288000#32 16 := (hreads.1 _ _).2 ⟨hfits, by decide⟩
  have hback := hreads.2.2 (-0x8000) hfits
  rw [hlow] at hback
  exact ⟨by decide, by decide, hfits, by decide, hread, hlow, hback⟩

end Word

end CookingIsa
