import Mathlib
import CookingIsa.Layout.Operands
import CookingIsa.Proofs.WrittenPattern

/-!
# Where a layout has its letters

The rules of a layout are rules on the fields of a pattern, and so on where its letters are written
(`violation?_eq_some_iff`). Fields share no bit, so the two register fields of the
register-immediate layout are at one of the two upper places each (`upperRegisters_iff`).
-/

namespace CookingIsa

open Pattern (letter written IsRun)

namespace Layout

/-- The letters `f` and `s` are the two upper registers of a word, in either order. -/
def UpperRegisters (chars : List Char) : Prop :=
  IsRun chars 'f' 21 5 ∧ IsRun chars 's' 16 5 ∨ IsRun chars 'f' 16 5 ∧ IsRun chars 's' 21 5

/-- The letters are written where the fields of the layout may lie: any of them as the three
registers of a word, or all of them as two registers and the low half. -/
def Arranges (chars : List Char) : Layout → Prop
  | threeRegister => ∀ k, letter k ∈ chars → ∃ lsb ∈ [21, 16, 11], IsRun chars (letter k) lsb 5
  | registerImmediate => (∀ k, letter k ∈ chars) ∧ IsRun chars 't' 0 16 ∧ UpperRegisters chars

/-- The first rule of the layout that is broken by where the letters are written. -/
def Breaks (chars : List Char) : Layout → Violation → Prop
  | threeRegister, .registerFields => ¬ threeRegister.Arranges chars
  | registerImmediate, .fieldCount => ¬ ∀ k, letter k ∈ chars
  | registerImmediate, .immediate => (∀ k, letter k ∈ chars) ∧ ¬ IsRun chars 't' 0 16
  | registerImmediate, .registerPlaces =>
    (∀ k, letter k ∈ chars) ∧ IsRun chars 't' 0 16 ∧ ¬ UpperRegisters chars
  | _, _ => False

end Layout

namespace Pattern

variable (p : Pattern)

theorem isRun_letter_iff (k : Fin 3) {lsb width : Nat} (hpos : 0 < width) :
    IsRun (p.marks.map Mark.toChar) (letter k) lsb width ↔
      (p.field k).lsb = lsb ∧ (p.field k).width = width := by
  constructor
  · intro h
    obtain ⟨hlsb, hwidth⟩ := h.unique (p.isRun_field k) hpos
    exact ⟨hlsb.symm, hwidth.symm⟩
  · rintro ⟨rfl, rfl⟩
    exact p.isRun_field k

/-- No bit belongs to two fields. -/
theorem not_covers_both {j k : Fin 3} (hjk : j ≠ k) (i : Nat) :
    ¬ ((p.field j).Covers i ∧ (p.field k).Covers i) := by
  rintro ⟨hj, hk⟩
  rw [covers_field_iff] at hj hk
  rw [hj, Option.some.injEq, Mark.operand.injEq] at hk
  exact hjk hk

theorem covers_lsb {k : Fin 3} (hk : Mark.operand k ∈ p.marks) :
    (p.field k).Covers (p.field k).lsb :=
  ⟨le_rfl, Nat.lt_add_of_pos_right (List.count_pos_iff.2 hk)⟩

/-- No two fields begin at the same bit, and no bit belongs to two of them. -/
theorem fields_apart : p.fields.Pairwise fun f g =>
    f.lsb ≠ g.lsb ∧ ∀ i, ¬ (f.Covers i ∧ g.Covers i) := by
  refine List.pairwise_map.2 (((List.nodup_finRange 3).filter _).pairwise_of_forall_ne ?_)
  intro j hj k hk hjk
  have hapart := p.not_covers_both hjk
  simp only [List.mem_filter, decide_eq_true_eq] at hj hk
  refine ⟨fun hlsb => hapart _ ⟨p.covers_lsb hj.2, ?_⟩, hapart⟩
  rw [hlsb]
  exact p.covers_lsb hk.2

theorem length_fields : p.fields.length = (written (p.marks.map Mark.toChar)).length := by
  simp only [fields, operands, written, letter_mem_iff, List.length_map]

theorem length_fields_eq_three_iff :
    p.fields.length = 3 ↔ ∀ k, letter k ∈ p.marks.map Mark.toChar := by
  rw [length_fields, written]
  have hall := @List.length_filter_eq_length_iff _
    (fun k => decide (letter k ∈ p.marks.map Mark.toChar)) (List.finRange 3)
  rw [List.length_finRange] at hall
  simp only [hall, List.mem_finRange, decide_eq_true_eq, true_imp_iff]

theorem fields_eq_three (h : ∀ k, letter k ∈ p.marks.map Mark.toChar) :
    p.fields = [p.field 0, p.field 1, p.field 2] := by
  have hall : p.operands = List.finRange 3 :=
    List.filter_eq_self.2 fun k _ => decide_eq_true (letter_mem_iff.1 (h k))
  rw [fields, hall]
  rfl

end Pattern

namespace Layout

open Pattern Word

variable {p : Pattern}

theorem isRegister_iff {k : Fin 3} {places : List Nat} :
    (p.field k).IsRegister places ↔
      ∃ lsb ∈ places, IsRun (p.marks.map Mark.toChar) (letter k) lsb 5 := by
  simp only [p.isRun_letter_iff k (show 0 < 5 by decide), Field.IsRegister]
  constructor
  · rintro ⟨hwidth, hplace⟩
    exact ⟨_, hplace, rfl, hwidth⟩
  · rintro ⟨lsb, hplace, rfl, hwidth⟩
    exact ⟨hwidth, hplace⟩

theorem registers_iff : (∀ f ∈ p.fields, f.IsRegister [rsPosition, rtPosition, rdPosition]) ↔
    threeRegister.Arranges (p.marks.map Mark.toChar) := by
  constructor
  · intro h k hk
    exact isRegister_iff.1 (h _ (p.mem_fields.2 ⟨k, letter_mem_iff.1 hk, rfl⟩))
  · intro h f hf
    obtain ⟨k, hk, rfl⟩ := p.mem_fields.1 hf
    exact isRegister_iff.2 (h k (letter_mem_iff.2 hk))

open scoped Classical in
theorem violation?_threeRegister : threeRegister.violation? p =
    if threeRegister.Arranges (p.marks.map Mark.toChar) then none else some .registerFields := by
  simp only [violation?, registers_iff]

/-- Two register fields at the two upper places are at one each, because they share no bit. -/
theorem upperRegisters_iff : (p.field 0).IsRegister [rsPosition, rtPosition] ∧
    (p.field 1).IsRegister [rsPosition, rtPosition] ↔ UpperRegisters (p.marks.map Mark.toChar) := by
  have hapart : ∀ lsb, ¬ (IsRun (p.marks.map Mark.toChar) 'f' lsb 5 ∧
      IsRun (p.marks.map Mark.toChar) 's' lsb 5) := by
    rintro lsb ⟨hf, hs⟩
    have h := ((hf lsb).2 ⟨le_rfl, by omega⟩).symm.trans ((hs lsb).2 ⟨le_rfl, by omega⟩)
    simp at h
  rw [isRegister_iff, isRegister_iff]
  constructor
  · rintro ⟨⟨a, ha, hf⟩, ⟨b, hb, hs⟩⟩
    simp only [List.mem_cons, List.not_mem_nil, or_false] at ha hb
    rcases ha with rfl | rfl <;> rcases hb with rfl | rfl
    · exact absurd ⟨hf, hs⟩ (hapart _)
    · exact .inl ⟨hf, hs⟩
    · exact .inr ⟨hf, hs⟩
    · exact absurd ⟨hf, hs⟩ (hapart _)
  · rintro (⟨hf, hs⟩ | ⟨hf, hs⟩)
    · exact ⟨⟨21, by simp, hf⟩, ⟨16, by simp, hs⟩⟩
    · exact ⟨⟨16, by simp, hf⟩, ⟨21, by simp, hs⟩⟩

theorem violation?_of_missing (h : ¬ ∀ k, letter k ∈ p.marks.map Mark.toChar) :
    registerImmediate.violation? p = some .fieldCount := by
  rw [← length_fields_eq_three_iff] at h
  unfold violation?
  split
  · contradiction
  · rename_i hfields
    rw [hfields] at h
    exact absurd rfl h
  · rfl

open scoped Classical in
theorem violation?_of_all (h : ∀ k, letter k ∈ p.marks.map Mark.toChar) :
    registerImmediate.violation? p =
      if ¬ IsRun (p.marks.map Mark.toChar) 't' 0 16 then some .immediate
      else if UpperRegisters (p.marks.map Mark.toChar) then none else some .registerPlaces := by
  have himm : IsRun (p.marks.map Mark.toChar) 't' 0 16 ↔
      (p.field 2).lsb = 0 ∧ (p.field 2).width = 16 := p.isRun_letter_iff 2 (by decide)
  simp only [violation?, p.fields_eq_three h, upperRegisters_iff, himm]
  congr 1
  rw [not_and_or, or_comm]

theorem violation?_eq_some_iff {l : Layout} {v : Violation} :
    l.violation? p = some v ↔ l.Breaks (p.marks.map Mark.toChar) v := by
  cases l with
  | threeRegister =>
    rw [violation?_threeRegister]
    split_ifs with h <;> cases v <;> simp [Breaks, h]
  | registerImmediate =>
    by_cases h : ∀ k, letter k ∈ p.marks.map Mark.toChar
    · rw [violation?_of_all h]
      generalize p.marks.map Mark.toChar = chars at h ⊢
      split_ifs with himm hregs <;> cases v <;> simp_all [Breaks]
    · rw [violation?_of_missing h]
      generalize p.marks.map Mark.toChar = chars at h ⊢
      cases v <;> simp [Breaks, h]

theorem violation?_eq_none_iff {l : Layout} :
    l.violation? p = none ↔ l.Arranges (p.marks.map Mark.toChar) := by
  cases l with
  | threeRegister =>
    rw [violation?_threeRegister]
    split_ifs with h <;> simp [h]
  | registerImmediate =>
    by_cases h : ∀ k, letter k ∈ p.marks.map Mark.toChar
    · rw [violation?_of_all h]
      generalize p.marks.map Mark.toChar = chars at h ⊢
      split_ifs with himm hregs <;> simp_all [Arranges]
    · rw [violation?_of_missing h]
      generalize p.marks.map Mark.toChar = chars at h ⊢
      simp [Arranges, h]

end Layout

end CookingIsa
