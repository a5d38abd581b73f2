import Mathlib
import CookingIsa.Pattern.Encoding
import CookingIsa.Proofs.Word

/-!
# A field reads back what is put into it

A field covers a run of positions. Extracting reads the bits there, a slice of the number that the
word is, and placing writes them, so each undoes the other as far as the field lies in the word
(`inverse_slices`). A field and the rest of the word determine the word: inserting a value into an
empty field gives exactly the word that holds the value in the field and is unchanged outside it
(`insert_eq_ok_iff`).
-/

namespace CookingIsa

namespace Field

/-- The field has the bit at position `i`. -/
def Covers (f : Field) (i : Nat) : Prop := f.lsb ≤ i ∧ i < f.lsb + f.width

instance (f : Field) (i : Nat) : Decidable (f.Covers i) :=
  inferInstanceAs (Decidable (_ ∧ _))

theorem getLsbD_mask (f : Field) {i : Nat} (hi : i < 32) :
    f.mask.getLsbD i = decide (f.Covers i) := by
  simp only [mask, BitVec.getLsbD_shiftLeft, Word.getLsbD_lowMask, hi, Covers]
  by_cases h : f.lsb ≤ i
  · simp [h, show i - f.lsb < 32 by omega, show ¬ i < f.lsb by omega,
      show i - f.lsb < f.width ↔ i < f.lsb + f.width by omega]
  · simp [h, show i < f.lsb by omega]

theorem getLsbD_extract (f : Field) (w : Word) (i : Nat) :
    (f.extract w).getLsbD i = (w.getLsbD (f.lsb + i) && decide (i < f.width)) := by
  simp only [extract, BitVec.getLsbD_and, BitVec.getLsbD_ushiftRight, Word.getLsbD_lowMask]
  by_cases h : i < 32
  · simp [h]
  · simp [h, BitVec.getLsbD_of_ge w (f.lsb + i) (by omega)]

theorem getLsbD_place (f : Field) (v : Word) {i : Nat} (hi : i < 32) :
    (f.place v).getLsbD i = (decide (f.Covers i) && v.getLsbD (i - f.lsb)) := by
  simp only [place, BitVec.getLsbD_shiftLeft, BitVec.getLsbD_and, Word.getLsbD_lowMask, hi, Covers]
  by_cases h : f.lsb ≤ i
  · simp [h, show i - f.lsb < 32 by omega, show ¬ i < f.lsb by omega, Bool.and_comm,
      show i - f.lsb < f.width ↔ i < f.lsb + f.width by omega]
  · simp [h, show i < f.lsb by omega]

theorem place_extract (f : Field) (w : Word) : f.place (f.extract w) = w &&& f.mask := by
  refine BitVec.eq_of_getLsbD_eq fun i hi => ?_
  rw [getLsbD_place f _ hi, getLsbD_extract, BitVec.getLsbD_and, getLsbD_mask f hi]
  by_cases h : f.Covers i
  · have hlt : i - f.lsb < f.width := by
      have := h.1
      have := h.2
      omega
    simp [h, hlt, show f.lsb + (i - f.lsb) = i from Nat.add_sub_cancel' h.1]
  · simp [h]

/-- A field reads the low bits of what was placed, and nothing else. What is placed above the top
of the word is lost. -/
theorem extract_place (f : Field) (v : Word) :
    f.extract (f.place v) = v &&& Word.lowMask (min f.width (32 - f.lsb)) := by
  refine BitVec.eq_of_getLsbD_eq fun i hi => ?_
  rw [getLsbD_extract, BitVec.getLsbD_and, Word.getLsbD_lowMask]
  by_cases hin : f.lsb + i < 32
  · rw [getLsbD_place f v hin]
    by_cases h : i < f.width
    · simp [h, hi, Covers, show i < 32 - f.lsb by omega]
    · simp [h]
  · rw [BitVec.getLsbD_of_ge _ _ (by omega)]
    simp [show ¬ i < 32 - f.lsb by omega]

theorem place_and_mask (f : Field) (v : Word) : f.place v &&& f.mask = f.place v := by
  refine BitVec.eq_of_getLsbD_eq fun i hi => ?_
  rw [BitVec.getLsbD_and, getLsbD_place f v hi, getLsbD_mask f hi]
  cases decide (f.Covers i) <;> simp

theorem extract_or (f : Field) (v w : Word) : f.extract (v ||| w) = f.extract v ||| f.extract w := by
  refine BitVec.eq_of_getLsbD_eq fun i _ => ?_
  simp only [getLsbD_extract, BitVec.getLsbD_or, Bool.and_or_distrib_right]

/-- A field reads only the bits under its mask. -/
theorem extract_congr (f : Field) {v w : Word} (h : v &&& f.mask = w &&& f.mask) :
    f.extract v = f.extract w := by
  refine BitVec.eq_of_getLsbD_eq fun i _ => ?_
  rw [getLsbD_extract, getLsbD_extract]
  by_cases hi : i < f.width ∧ f.lsb + i < 32
  · have hbit := congrArg (·.getLsbD (f.lsb + i)) h
    simp only [BitVec.getLsbD_and, getLsbD_mask f hi.2] at hbit
    simpa [Covers, hi.1] using hbit
  · by_cases hw : i < f.width
    · rw [BitVec.getLsbD_of_ge v _ (by omega), BitVec.getLsbD_of_ge w _ (by omega)]
    · simp [hw]

theorem extract_eq_extract_iff (f : Field) {v w : Word} :
    f.extract v = f.extract w ↔ v &&& f.mask = w &&& f.mask := by
  constructor
  · intro h
    rw [← place_extract, h, place_extract]
  · exact f.extract_congr

/-- The other field's values never show in this one exactly if the two have no bit in common. -/
theorem extract_or_place_iff (f g : Field) :
    (∀ v w, f.extract (w ||| g.place v) = f.extract w) ↔ f.mask &&& g.mask = 0#32 := by
  constructor
  · intro h
    -- The word that has just the bits of the other field must read as the empty word does.
    have hfull : g.place (BitVec.allOnes 32) = g.mask := by
      rw [place, BitVec.allOnes_and, mask]
    have hempty := h (BitVec.allOnes 32) 0#32
    rwa [BitVec.zero_or, hfull, extract_eq_extract_iff, BitVec.zero_and, BitVec.and_comm] at hempty
  · intro h v w
    have hplace : g.place v &&& f.mask = 0#32 := by
      rw [← g.place_and_mask v, BitVec.and_assoc, BitVec.and_comm g.mask, h, BitVec.and_zero]
    refine f.extract_congr ?_
    rw [BitVec.and_or_distrib_right, hplace, BitVec.or_zero]

theorem toNat_extract (f : Field) (w : Word) :
    (f.extract w).toNat = w.toNat / 2 ^ f.lsb % 2 ^ f.width := by
  rw [extract, Word.toNat_and_lowMask, BitVec.toNat_ushiftRight, Nat.shiftRight_eq_div_pow]

theorem toNat_extract_lt (f : Field) (w : Word) : (f.extract w).toNat < 2 ^ f.width := by
  rw [toNat_extract]
  exact Nat.mod_lt _ (Nat.two_pow_pos f.width)

/-- Extracting is division and remainder. What was placed is extracted again, cut to the bits of the
field that lie in the word, and what was extracted is placed again as the part of the word under the
mask. What another field places into a word never changes what is extracted exactly if the two masks
share no bit. -/
theorem inverse_slices (f : Field) :
    (∀ w : Word, (f.extract w).toNat = w.toNat / 2 ^ f.lsb % 2 ^ f.width) ∧
    (∀ v : Word, (f.extract (f.place v)).toNat = v.toNat % 2 ^ min f.width (32 - f.lsb)) ∧
    (∀ w : Word, f.place (f.extract w) = w &&& f.mask) ∧
    ∀ g : Field, (∀ v w : Word, f.extract (w ||| g.place v) = f.extract w) ↔
      f.mask &&& g.mask = 0#32 := by
  refine ⟨f.toNat_extract, fun v => ?_, f.place_extract, f.extract_or_place_iff⟩
  rw [f.extract_place, Word.toNat_and_lowMask]

/-- Of eight bits placed at bit 28 the word keeps four. -/
example : let f : Field := ⟨0, 28, 8⟩
    f.place 0xab#32 = 0xb0000000#32 ∧ f.extract (f.place 0xab#32) = 0xb#32 := by decide

/-- What is inserted into an empty field is what the field then holds, and the rest of the word is
what it was; and every such word comes of inserting what its field holds. -/
theorem insert_eq_ok_iff (f : Field) (hin : f.lsb + f.width ≤ 32) {value : Int} {w₀ w : Word}
    (h₀ : w₀ &&& f.mask = 0#32) :
    f.insert value w₀ = .ok w ↔
      value = ((f.extract w).toNat : Int) ∧ w &&& ~~~f.mask = w₀ := by
  unfold insert
  rw [Nat.one_shiftLeft]
  constructor
  · intro h
    split_ifs at h with hv
    cases h
    obtain ⟨n, rfl⟩ := Int.eq_ofNat_of_zero_le hv.1
    have hn : n < 2 ^ f.width := by exact_mod_cast hv.2
    have hn32 : n < 2 ^ 32 := hn.trans_le (Nat.pow_le_pow_right (by omega) (by omega))
    have htoNat : (BitVec.ofInt 32 (n : Int)).toNat = n := by
      rw [BitVec.ofInt_natCast, BitVec.toNat_ofNat, Nat.mod_eq_of_lt hn32]
    have hempty : f.extract w₀ = 0#32 := by
      rw [extract_congr f (w := 0#32) (by simpa using h₀)]
      simp [extract]
    refine ⟨?_, ?_⟩
    · rw [extract_or, hempty, BitVec.zero_or, extract_place f,
        min_eq_left (show f.width ≤ 32 - f.lsb by omega),
        Word.and_lowMask_of_lt (by rw [htoNat]; exact hn), htoNat]
    · have houtside : f.place (BitVec.ofInt 32 (n : Int)) &&& ~~~f.mask = 0#32 := by
        rw [← f.place_and_mask, BitVec.and_assoc, BitVec.and_not_self]
        exact BitVec.and_zero
      have hrest := Word.and_not_or_and w₀ f.mask
      rw [h₀, BitVec.or_zero] at hrest
      rw [BitVec.and_or_distrib_right, houtside, BitVec.or_zero, hrest]
  · rintro ⟨rfl, rfl⟩
    have hlt : ((f.extract w).toNat : Int) < (2 ^ f.width : Nat) := by
      exact_mod_cast toNat_extract_lt f w
    rw [if_pos ⟨by omega, hlt⟩, BitVec.ofInt_natCast, BitVec.ofNat_toNat, BitVec.setWidth_eq,
      place_extract, Word.and_not_or_and]

end Field

end CookingIsa
