import Mathlib
import CookingIsa.Pattern.Parser
import CookingIsa.Proofs.Encoding

/-!
# Encoding undoes extracting, whatever the widths

A pattern need not fit a layout, and then its fields can have any width. A field that is narrower
than the word holds no number that is negative when read with sign, so what its word holds is
accepted again. A field as wide as the word leaves room for nothing else (`fields_eq_whole`), and
there the upper half of the words holds negative numbers, which no field accepts
(`encode_inverts_extract`).
-/

namespace CookingIsa

theorem Field.toInt_extract (f : Field) (hwidth : f.width < 32) (w : Word) :
    (f.extract w).toInt = ((f.extract w).toNat : Int) := by
  have hlt := f.toNat_extract_lt w
  have hhalf : 2 ^ f.width ≤ 2 ^ 31 := Nat.pow_le_pow_right (by omega) (by omega)
  exact BitVec.toInt_eq_toNat_of_lt (by omega)

namespace Pattern

/-- The field of a pattern that has no other and fixes no bit. -/
def whole : Field := ⟨0, 0, 32⟩

/-- What the fields hold as numbers with sign. -/
def signedHeld (p : Pattern) (w : Word) : List Int := p.fields.map fun f => (f.extract w).toInt

theorem extract_whole (w : Word) : whole.extract w = w := by
  rw [Field.extract, whole, BitVec.ushiftRight_zero]
  exact Word.and_lowMask_of_lt w.isLt

variable (p : Pattern) {w : Word}

/-- A field as wide as the word is the only one, and belongs to the first operand. -/
theorem fields_eq_whole {f : Field} (hf : f ∈ p.fields) (hwidth : f.width = 32) :
    p.fields = [whole] := by
  obtain ⟨k, hk, rfl⟩ := p.mem_fields.1 hf
  have hmarks : p.marks = List.replicate 32 (.operand k) := by
    refine List.eq_replicate_iff.2 ⟨p.length_marks, fun m hm => ?_⟩
    exact (List.count_eq_length.1 (hwidth.trans p.length_marks.symm) m hm).symm
  obtain rfl : k = 0 := by
    by_contra hne
    have hfirst := p.gapless 0 k (Fin.pos_of_ne_zero hne) hk
    rw [hmarks, List.mem_replicate, Mark.operand.injEq] at hfirst
    exact hne hfirst.2.symm
  have hoperands : p.operands = [0] := by
    rw [operands, hmarks]
    rfl
  have hfield : p.field 0 = whole := by
    rw [field, hmarks]
    rfl
  rw [fields, hoperands, List.map_singleton, hfield]

theorem signedHeld_eq (hnarrow : ∀ f ∈ p.fields, f.width ≠ 32) :
    p.signedHeld w = p.fields.map (held w) := by
  refine List.map_congr_left fun f hf => f.toInt_extract ?_ w
  have hle := p.fields_le hf
  have hne := hnarrow f hf
  omega

theorem encode_signedHeld_whole (hfields : p.fields = [whole]) (hw : p.Matches w) :
    p.encode (p.signedHeld w) =
      if 2 ^ 31 ≤ w.toNat then .error (.outOfRange 0 w.toInt 32) else .ok w := by
  have hheld : p.signedHeld w = [w.toInt] := by
    rw [signedHeld, hfields, List.map_singleton, extract_whole]
  rw [hheld]
  split_ifs with hhalf
  · have hmisfit : ¬ whole.Fits w.toInt := by
      rw [BitVec.toInt_eq_toNat_cond, if_neg (by omega)]
      rintro ⟨hnonneg, -⟩
      have := w.isLt
      omega
    have hfirst : FirstMisfit p.fields [w.toInt] 0 whole w.toInt := hfields ▸ .head hmisfit
    rw [encode, if_pos (by rw [hfields]; rfl)]
    exact insertAll_eq_error_iff.2 ⟨0, whole, w.toInt, hfirst, rfl⟩
  · refine p.encode_eq_ok_iff.2 ⟨hw, ?_⟩
    rw [hfields, List.map_singleton, held, extract_whole, BitVec.toInt_eq_toNat_of_lt (by omega)]

theorem encode_signedHeld (hw : p.Matches w) :
    p.encode (p.signedHeld w) = if p.fields = [whole] ∧ 2 ^ 31 ≤ w.toNat then
      .error (.outOfRange 0 w.toInt 32) else .ok w := by
  by_cases hfields : p.fields = [whole]
  · rw [p.encode_signedHeld_whole hfields hw]
    simp only [hfields, true_and]
  · rw [if_neg fun h => hfields h.1,
      p.signedHeld_eq fun f hf hwidth => hfields (p.fields_eq_whole hf hwidth)]
    exact p.encode_eq_ok_iff.2 ⟨hw, rfl⟩

/-- The word that operands are encoded as matches, its fields hold the operands, and no other word
that matches holds the same. A matching word is encoded from the signed numbers that it holds,
unless it is one field with its highest bit set, which is refused. -/
theorem encode_inverts_extract (p : Pattern) :
    (∀ operands w, p.encode operands = .ok w → p.Matches w ∧ operands = p.fields.map (held w) ∧
      ∀ w', p.Matches w' → (∀ f ∈ p.fields, f.extract w' = f.extract w) → w' = w) ∧
    ∀ w, p.Matches w → p.encode (p.signedHeld w) =
      if p.fields = [whole] ∧ 2 ^ 31 ≤ w.toNat then .error (.outOfRange 0 w.toInt 32)
      else .ok w := by
  refine ⟨fun operands w h => ?_, fun w => p.encode_signedHeld⟩
  obtain ⟨hw, hheld⟩ := p.encode_eq_ok_iff.1 h
  refine ⟨hw, hheld, fun w' hw' hsame => ?_⟩
  have hheld' : operands = p.fields.map (held w') := by
    rw [hheld]
    exact List.map_congr_left fun f hf => by rw [held, held, hsame f hf]
  have h' := p.encode_eq_ok_iff.2 ⟨hw', hheld'⟩
  exact Except.ok.inj (h'.symm.trans h)

/-- The largest positive number fills a field of 32 bits and is read back; the word with all bits
set holds minus one there, which is refused, but in a field of 31 bits no negative number. -/
theorem encode_inverts_extract_whole :
    ∃ wide narrow, parse "ffffffff ffffffff ffffffff ffffffff" = .ok wide ∧
      parse "1fffffff ffffffff ffffffff ffffffff" = .ok narrow ∧
      (wide.encode [0x7fffffff] = .ok 0x7fffffff#32 ∧ wide.Matches 0x7fffffff#32 ∧
        [0x7fffffff] = wide.fields.map (held 0x7fffffff#32) ∧
        ∀ w', wide.Matches w' →
          (∀ f ∈ wide.fields, f.extract w' = f.extract 0x7fffffff#32) → w' = 0x7fffffff#32) ∧
      (wide.Matches 0xffffffff#32 ∧ wide.signedHeld 0xffffffff#32 = [-1] ∧
        wide.encode (wide.signedHeld 0xffffffff#32) = .error (.outOfRange 0 (-1) 32)) ∧
      narrow.Matches 0xffffffff#32 ∧ narrow.signedHeld 0xffffffff#32 = [0x7fffffff] ∧
        narrow.encode (narrow.signedHeld 0xffffffff#32) = .ok 0xffffffff#32 := by
  obtain ⟨wide, hwide, hfields, hencode, hmatches⟩ :
      ∃ p, parse "ffffffff ffffffff ffffffff ffffffff" = .ok p ∧ p.fields = [whole] ∧
        p.encode [0x7fffffff] = .ok 0x7fffffff#32 ∧ p.Matches 0xffffffff#32 :=
    ⟨_, rfl, rfl, rfl, rfl⟩
  obtain ⟨narrow, hnarrow, hfields', hmatches'⟩ :
      ∃ p, parse "1fffffff ffffffff ffffffff ffffffff" = .ok p ∧ p.fields = [⟨0, 0, 31⟩] ∧
        p.Matches 0xffffffff#32 := ⟨_, rfl, rfl, rfl⟩
  have hrefused := (encode_inverts_extract wide).2 _ hmatches
  rw [if_pos ⟨hfields, by decide⟩] at hrefused
  have haccepted := (encode_inverts_extract narrow).2 _ hmatches'
  rw [if_neg (by rw [hfields']; decide)] at haccepted
  refine ⟨wide, narrow, hwide, hnarrow, ⟨hencode, (encode_inverts_extract wide).1 _ _ hencode⟩,
    ⟨hmatches, ?_, hrefused⟩, hmatches', ?_, haccepted⟩
  · rw [signedHeld, hfields]
    rfl
  · rw [signedHeld, hfields']
    rfl

end Pattern

end CookingIsa
