import Mathlib
import CookingIsa.Layout.Operands
import CookingIsa.Proofs.Pattern
import CookingIsa.Register

/-!
# Operands in a field and operands as they are meant

In a pattern that fits its layout the third field of a register-immediate word is the low half, and
every other field is as wide as a register number. So what a field holds and the operand it stands
for determine each other (`fieldValue_operandOf`, `operandOf_of_fieldValue`), and encoding gives a
word exactly if the word matches and its fields hold the operands (`encode_eq_ok_iff`).
-/

namespace CookingIsa

open Pattern (held)

/-- The index of an operand is its place among the fields. -/
theorem Pattern.operand_of_getElem? (p : Pattern) {j : Nat} {f : Field}
    (hf : p.fields[j]? = some f) : f.operand = j := by
  have hgap := p.gapless
  have h01 := hgap 0 1 (by decide)
  have h02 := hgap 0 2 (by decide)
  have h12 := hgap 1 2 (by decide)
  have hfin : List.finRange 3 = [0, 1, 2] := rfl
  -- Without gaps the operands are none, the first, the first two, or all three.
  simp only [fields, operands, hfin, List.getElem?_map, Option.map_eq_some_iff] at hf
  obtain ⟨k, hk, rfl⟩ := hf
  by_cases h0 : Mark.operand 0 ∈ p.marks
  · by_cases h1 : Mark.operand 1 ∈ p.marks
    · by_cases h2 : Mark.operand 2 ∈ p.marks
      · rcases j with _ | _ | _ | j <;> simp [h0, h1, h2] at hk <;> subst hk <;> rfl
      · rcases j with _ | _ | j <;> simp [h0, h1, h2] at hk <;> subst hk <;> rfl
    · have h2 : Mark.operand 2 ∉ p.marks := fun h => h1 (h12 h)
      rcases j with _ | j <;> simp [h0, h1, h2] at hk
      subst hk
      rfl
  · have h1 : Mark.operand 1 ∉ p.marks := fun h => h0 (h01 h)
    have h2 : Mark.operand 2 ∉ p.marks := fun h => h0 (h02 h)
    simp [h0, h1, h2] at hk

namespace Layout

/-- The operand at index `i` is the immediate, and no register. -/
def IsImmediate (l : Layout) (i : Nat) : Prop := l = registerImmediate ∧ i = 2

instance (l : Layout) (i : Nat) : Decidable (l.IsImmediate i) :=
  inferInstanceAs (Decidable (_ ∧ _))

/-- A value that the operand at index `i` can have: a number of 16 bits with sign for an immediate,
the number of a register otherwise. -/
def Admits (l : Layout) (i : Nat) (value : Int) : Prop :=
  if l.IsImmediate i then -0x8000 ≤ value ∧ value < 0x8000 else 0 ≤ value ∧ value < Register.count

instance (l : Layout) (i : Nat) (value : Int) : Decidable (l.Admits i value) := by
  unfold Admits
  exact inferInstance

/-- An operand as it is read back: an immediate that was given without sign has one. -/
def readBack (l : Layout) (i : Nat) (value : Int) : Int :=
  if l.IsImmediate i ∧ 0x8000 ≤ value ∧ value < 0x10000 then value - 0x10000 else value

variable {l : Layout} {p : Pattern} {w : Word} {j : Nat} {f : Field}

theorem not_isImmediate_of_lt (l : Layout) (hj : j < 2) : ¬ l.IsImmediate j :=
  fun h => hj.ne h.2

theorem fieldValue_of_not_isImmediate (h : ¬ l.IsImmediate j) (value : Int) :
    l.fieldValue j value = value :=
  if_neg fun hc => h ⟨hc.1, hc.2.1⟩

theorem readBack_of_not_isImmediate (h : ¬ l.IsImmediate j) (value : Int) :
    l.readBack j value = value :=
  if_neg fun hc => h hc.1

/-- The places and widths of the fields in a pattern that fits its layout. -/
theorem field_shape (hfit : l.violation? p = none) (hf : p.fields[j]? = some f) :
    if l.IsImmediate j then f.width = 16 ∧ f.lsb = 0
    else f.width = 5 ∧ (f.lsb = 21 ∨ f.lsb = 16 ∨ f.lsb = 11) := by
  unfold violation? at hfit
  split at hfit
  · rw [if_neg fun h => by simp [IsImmediate] at h]
    split_ifs at hfit with hall
    have := hall f (List.mem_of_getElem? hf)
    simpa [Field.IsRegister] using this
  · rename_i first second third hfields
    rw [hfields] at hf
    split_ifs at hfit with himm hregs
    simp only [not_or, not_not] at himm
    rcases j with _ | _ | _ | j
    · simp only [List.getElem?_cons_zero, Option.some.injEq] at hf
      subst hf
      have := hregs.1
      simp [IsImmediate, Field.IsRegister] at this ⊢
      tauto
    · simp only [List.getElem?_cons_succ, List.getElem?_cons_zero, Option.some.injEq] at hf
      subst hf
      have := hregs.2
      simp [IsImmediate, Field.IsRegister] at this ⊢
      tauto
    · simp only [List.getElem?_cons_succ, List.getElem?_cons_zero, Option.some.injEq] at hf
      subst hf
      rw [if_pos ⟨rfl, rfl⟩]
      exact himm
    · simp at hf
  · cases hfit

theorem operandOf_eq (hfit : l.violation? p = none) (hf : p.fields[j]? = some f) :
    l.operandOf w f =
      if l.IsImmediate j ∧ 0x8000 ≤ held w f then held w f - 0x10000 else held w f := by
  have hshape := field_shape hfit hf
  have hop := p.operand_of_getElem? hf
  have hlt := f.toNat_extract_lt w
  unfold operandOf held
  rw [hop]
  by_cases himm : l.IsImmediate j
  · rw [if_pos himm] at hshape
    rw [hshape.1] at hlt
    rw [if_pos (show l = registerImmediate ∧ j = 2 from himm), hshape.1,
      Word.signedLow_eq_bmod _ (by omega) (by omega), Int.bmod_def]
    simp only [himm, true_and]
    split_ifs <;> omega
  · rw [if_neg himm] at hshape
    rw [hshape.1] at hlt
    rw [if_neg (show ¬ (l = registerImmediate ∧ j = 2) from himm), if_neg fun h => himm h.1,
      BitVec.toInt_eq_toNat_of_lt (by omega)]

theorem held_lt (hfit : l.violation? p = none) (hf : p.fields[j]? = some f) :
    0 ≤ held w f ∧ held w f < if l.IsImmediate j then 0x10000 else 32 := by
  have hshape := field_shape hfit hf
  have hlt := f.toNat_extract_lt w
  refine ⟨Int.natCast_nonneg _, ?_⟩
  unfold held
  split_ifs at hshape ⊢ <;> rw [hshape.1] at hlt <;> omega

/-- The operand of a field is put back into the field as what it held. -/
theorem fieldValue_operandOf (hfit : l.violation? p = none) (hf : p.fields[j]? = some f) :
    l.fieldValue j (l.operandOf w f) = held w f := by
  have hlt := held_lt (w := w) hfit hf
  rw [operandOf_eq hfit hf]
  by_cases himm : l.IsImmediate j
  · obtain ⟨rfl, rfl⟩ := himm
    simp only [fieldValue, IsImmediate, and_self, true_and, if_true] at hlt ⊢
    split_ifs <;> omega
  · rw [fieldValue_of_not_isImmediate himm, if_neg fun h => himm h.1]

/-- A value that was put into a field is read back with its sign. -/
theorem operandOf_of_fieldValue (hfit : l.violation? p = none) (hf : p.fields[j]? = some f)
    {value : Int} (h : l.fieldValue j value = held w f) :
    l.operandOf w f = l.readBack j value := by
  have hlt := held_lt (w := w) hfit hf
  rw [operandOf_eq hfit hf]
  by_cases himm : l.IsImmediate j
  · obtain ⟨rfl, rfl⟩ := himm
    simp only [fieldValue, IsImmediate, and_self, true_and, if_true] at h hlt
    simp only [readBack, IsImmediate, and_self, true_and]
    split_ifs at h ⊢ <;> omega
  · rw [fieldValue_of_not_isImmediate himm] at h
    rw [readBack_of_not_isImmediate himm, if_neg fun hc => himm hc.1, h]

theorem admits_operandOf (hfit : l.violation? p = none) (hf : p.fields[j]? = some f) :
    l.Admits j (l.operandOf w f) := by
  have hlt := held_lt (w := w) hfit hf
  rw [operandOf_eq hfit hf, Admits]
  by_cases himm : l.IsImmediate j
  · simp only [himm, true_and, if_true] at hlt ⊢
    split_ifs <;> omega
  · simp only [himm, false_and, if_false] at hlt ⊢
    exact_mod_cast hlt

theorem encode_eq_ok_iff {operands : List Int} :
    l.encode p operands = .ok w ↔
      p.Matches w ∧ operands.mapIdx l.fieldValue = p.fields.map (held w) :=
  p.encode_eq_ok_iff

end Layout

end CookingIsa
