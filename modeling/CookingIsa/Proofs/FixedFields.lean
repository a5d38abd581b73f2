import Mathlib
import CookingIsa.Proofs.FieldDispatch
import CookingIsa.Proofs.RoundTrip

/-!
# The operands of a word are its fixed fields

An instruction reads its operands by its own pattern, and the format of the words cuts each word at
fixed places. A pattern that fits its layout has its fields at some of these places, so both read
the same, also in a word that does not match (`operandsOf_eq_fixedOperand`). The fixed fields lie
side by side and leave no bit out: shifted back, they make the word again (`reassemble`).
-/

namespace CookingIsa

namespace Word

/-- The register field whose lowest bit is at the given place. -/
def registerAt? (w : Word) (place : Nat) : Option Nat :=
  if place = rsPosition then some w.rs
  else if place = rtPosition then some w.rt
  else if place = rdPosition then some w.rd
  else none

namespace Part

theorem value_lt (part : Part) (w : Word) : part.value w < 2 ^ (part.field 0).width := by
  rw [← part.toNat_extract_field 0]
  exact (part.field 0).toNat_extract_lt w

theorem shiftLeft_value (part : Part) (w : Word) :
    BitVec.ofNat 32 (part.value w) <<< (part.field 0).lsb = w &&& (part.field 0).mask := by
  have hcut : (part.field 0).extract w &&& lowMask (part.field 0).width =
      (part.field 0).extract w := and_lowMask_of_lt ((part.field 0).toNat_extract_lt w)
  rw [← Field.place_extract, Field.place, hcut, ← part.toNat_extract_field 0, BitVec.ofNat_toNat,
    BitVec.setWidth_eq]

end Part

theorem reassemble (w : Word) :
    BitVec.ofNat 32 w.opcode <<< 26 ||| BitVec.ofNat 32 w.rs <<< 21 |||
      BitVec.ofNat 32 w.rt <<< 16 ||| BitVec.ofNat 32 w.rd <<< 11 |||
      BitVec.ofNat 32 w.shamt <<< 6 ||| BitVec.ofNat 32 w.funct = w := by
  have hopcode := Part.opcode.shiftLeft_value w
  have hrs := Part.rs.shiftLeft_value w
  have hrt := Part.rt.shiftLeft_value w
  have hrd := Part.rd.shiftLeft_value w
  have hshamt := Part.shamt.shiftLeft_value w
  have hfunct := Part.funct.shiftLeft_value w
  simp only [Part.field, Part.value, BitVec.shiftLeft_zero] at hopcode hrs hrt hrd hshamt hfunct
  have hmasks : Field.mask ⟨0, 26, 6⟩ ||| Field.mask ⟨0, 21, 5⟩ ||| Field.mask ⟨0, 16, 5⟩ |||
      Field.mask ⟨0, 11, 5⟩ ||| Field.mask ⟨0, 6, 5⟩ ||| Field.mask ⟨0, 0, 6⟩ =
        BitVec.allOnes 32 := by decide
  rw [hopcode, hrs, hrt, hrd, hshamt, hfunct]
  simp only [← BitVec.and_or_distrib_left, hmasks, BitVec.and_allOnes]

theorem imm16_eq_mod (w : Word) : w.imm16 = w.toNat % 2 ^ 16 := by
  have hmask : (0xffff#32).toNat = 2 ^ 16 - 1 := by decide
  rw [imm16, BitVec.toNat_and, hmask, Nat.and_two_pow_sub_one_eq_mod]

theorem signedLow_imm16 (w : Word) : signedLow (BitVec.ofNat 32 w.imm16) 16 = w.immediate := by
  have hlt : w.imm16 < 2 ^ 16 := Part.imm16.value_lt w
  have hvalue : (BitVec.ofNat 32 w.imm16).toNat = w.imm16 := by
    rw [BitVec.toNat_ofNat]
    omega
  have hread := signedLow_eq_bmod (BitVec.ofNat 32 w.imm16) (show 0 < 16 by decide) (by decide)
  rwa [hvalue] at hread

end Word

open Word (Part)

namespace Layout

/-- The operand of the field with index `j` by the fixed fields of the word: the sign-extended low
half where the immediate is, and the register field at the place of the field otherwise. -/
def fixedOperand? (l : Layout) (w : Word) (j : Nat) (f : Field) : Option Int :=
  if l.IsImmediate j then some (Word.signedLow (BitVec.ofNat 32 w.imm16) 16)
  else (w.registerAt? f.lsb).map fun n => (n : Int)

variable {l : Layout} {p : Pattern} {j : Nat} {f : Field}

theorem operandOf_eq_fixedOperand (hfit : l.violation? p = none) (hf : p.fields[j]? = some f)
    (w : Word) : some (l.operandOf w f) = l.fixedOperand? w j f := by
  have hshape := field_shape hfit hf
  have hoperand := p.operand_of_getElem? hf
  obtain ⟨operand, lsb, width⟩ := f
  subst hoperand
  rw [fixedOperand?]
  split_ifs at hshape ⊢ with himm
  · obtain ⟨rfl, rfl⟩ := hshape
    rw [Word.signedLow_imm16]
    have hpart : Part.imm16 = .imm16 ↔ l.IsImmediate operand := iff_of_true rfl himm
    exact congrArg some (Part.operandOf_field hpart w)
  · obtain ⟨rfl, hplace⟩ := hshape
    have hregister : ∀ part : Part, part ≠ .imm16 →
        l.operandOf w (part.field operand) = part.value w := by
      intro part hpart
      rw [Part.operandOf_field (iff_of_false hpart himm), Part.operand_of_ne hpart]
    rcases hplace with rfl | rfl | rfl
    · exact congrArg some (hregister .rs (by decide))
    · exact congrArg some (hregister .rt (by decide))
    · exact congrArg some (hregister .rd (by decide))

end Layout

theorem Instruction.operandsOf_eq_fixedOperand (i : Instruction) (w : Word) :
    (i.operandsOf w).toList.map some = i.pattern.fields.mapIdx (i.layout.fixedOperand? w) := by
  refine List.ext_getElem? fun j => ?_
  rw [List.getElem?_map, i.getElem?_operandsOf, List.getElem?_mapIdx]
  rcases hf : i.pattern.fields[j]? with _ | f
  · rfl
  · exact congrArg some (Layout.operandOf_eq_fixedOperand i.fits hf w)

/-- Every operand that an instruction reads from a word is the fixed field at its place, and the
fixed fields, each in the range of its width, are the word cut up. -/
theorem Instruction.reads_fixedFields :
    (∀ (i : Instruction) (w : Word),
      (i.operandsOf w).toList.map some = i.pattern.fields.mapIdx (i.layout.fixedOperand? w)) ∧
    ∀ w : Word,
      (w.opcode < 2 ^ 6 ∧ w.rs < 2 ^ 5 ∧ w.rt < 2 ^ 5 ∧ w.rd < 2 ^ 5 ∧ w.shamt < 2 ^ 5 ∧
        w.funct < 2 ^ 6) ∧
      BitVec.ofNat 32 w.opcode <<< 26 ||| BitVec.ofNat 32 w.rs <<< 21 |||
        BitVec.ofNat 32 w.rt <<< 16 ||| BitVec.ofNat 32 w.rd <<< 11 |||
        BitVec.ofNat 32 w.shamt <<< 6 ||| BitVec.ofNat 32 w.funct = w ∧
      w.imm16 = w.toNat % 2 ^ 16 := by
  refine ⟨fun i => i.operandsOf_eq_fixedOperand, fun w => ⟨?_, w.reassemble, w.imm16_eq_mod⟩⟩
  exact ⟨Part.opcode.value_lt w, Part.rs.value_lt w, Part.rt.value_lt w, Part.rd.value_lt w,
    Part.shamt.value_lt w, Part.funct.value_lt w⟩

end CookingIsa
