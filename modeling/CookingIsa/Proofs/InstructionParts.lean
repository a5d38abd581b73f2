import Mathlib
import CookingIsa.Instruction.Basic
import CookingIsa.Proofs.Arrangement

/-!
# Which parts make an instruction

Parts make an instruction if the usage has a name, the pattern is well written, its letters are
where the layout has its fields, and the operation takes what they provide. The parts that make none
are refused for the first of these that fails (`ofParts_exactly`).
-/

namespace CookingIsa

open Pattern (bitChars written WellWritten)

theorem Text.firstWord?_eq_none_iff {text : String} :
    firstWord? text = none ↔ ∀ c ∈ text.toList, isBlank c = true := by
  unfold firstWord?
  rw [← List.dropWhile_eq_nil_iff]
  rcases hrest : text.toList.dropWhile isBlank with _ | ⟨c, rest⟩
  · simp
  · have hc : isBlank c = false := by
      have hhead := List.head?_dropWhile_not isBlank text.toList
      rw [hrest] at hhead
      simpa using hhead
    simp [hc]

theorem Text.exists_of_firstWord? {text word : String} (h : firstWord? text = some word) :
    ∃ c ∈ text.toList, isBlank c = false := by
  by_contra hblank
  rw [firstWord?_eq_none_iff.2 (by simpa using hblank)] at h
  cases h

/-- Parts that make an instruction. -/
structure InstructionParts.Legal (parts : InstructionParts) : Prop where
  named : ∃ c ∈ parts.usage.toList, Text.isBlank c = false
  wellWritten : WellWritten (bitChars parts.pattern)
  arranged : parts.layout.Arranges (bitChars parts.pattern)
  layout_eq : parts.operation.layout = parts.layout
  arity_eq : (written (bitChars parts.pattern)).length = parts.operation.arity

/-- What is wrong with parts that make no instruction: the first rule that is broken, the name being
looked for before the pattern is read, the pattern being read before it is compared with the layout,
and the operation coming last. -/
inductive InstructionParts.Defect (parts : InstructionParts) : SetupError → Prop
  | unnamed (hblank : ∀ c ∈ parts.usage.toList, Text.isBlank c = true) : Defect parts .emptyUsage
  | misread {mnemonic : String} {e : PatternError}
      (hname : Text.firstWord? parts.usage = some mnemonic)
      (hwritten : ¬ WellWritten (bitChars parts.pattern))
      (hparse : Pattern.parse parts.pattern = .error e) : Defect parts (.pattern mnemonic e)
  | misfit {mnemonic : String} {v : Layout.Violation}
      (hname : Text.firstWord? parts.usage = some mnemonic)
      (hwritten : WellWritten (bitChars parts.pattern))
      (hbreaks : parts.layout.Breaks (bitChars parts.pattern) v) :
      Defect parts (.pattern mnemonic (.misfit parts.layout v))
  | mismatch {mnemonic : String} (hname : Text.firstWord? parts.usage = some mnemonic)
      (hwritten : WellWritten (bitChars parts.pattern))
      (harranged : parts.layout.Arranges (bitChars parts.pattern))
      (hne : ¬ (parts.operation.layout = parts.layout ∧
        (written (bitChars parts.pattern)).length = parts.operation.arity)) :
      Defect parts (.operationMismatch mnemonic parts.operation.arity parts.operation.layout)

/-- The instruction has the usage, the description and the operation of the parts, and its pattern
is written like theirs, but for blanks. -/
structure Instruction.MadeOf (i : Instruction) (parts : InstructionParts) : Prop where
  usage_eq : i.usage = parts.usage
  description_eq : i.description = parts.description
  operation_eq : i.operation = parts.operation
  marks_eq : i.pattern.marks.map Mark.toChar = bitChars parts.pattern

namespace Layout

variable {l : Layout} {chars : List Char} {v v' : Violation}

theorem Breaks.not_arranges (h : l.Breaks chars v) : ¬ l.Arranges chars := by
  intro harranged
  cases l <;> cases v <;> simp_all [Breaks, Arranges]

theorem Breaks.unique (h : l.Breaks chars v) (h' : l.Breaks chars v') : v = v' := by
  cases l <;> cases v <;> cases v' <;> simp_all [Breaks]

end Layout

namespace Instruction

variable {parts : InstructionParts}

/-- Parts either have a defect, which is the error, or are legal and make the instruction that they
describe. -/
theorem ofParts_cases (parts : InstructionParts) :
    (∃ error, ofParts parts = .error error ∧ parts.Defect error) ∨
      ∃ i, ofParts parts = .ok i ∧ parts.Legal ∧ i.MadeOf parts := by
  generalize hresult : ofParts parts = result
  unfold ofParts at hresult
  split at hresult
  · rename_i hname
    exact .inl ⟨_, hresult.symm, .unnamed (Text.firstWord?_eq_none_iff.1 hname)⟩
  · rename_i mnemonic hname
    have hnamed := Text.exists_of_firstWord? hname
    split at hresult
    · rename_i e hparse
      refine .inl ⟨_, hresult.symm, .misread hname (fun hwritten => ?_) hparse⟩
      obtain ⟨p, hp⟩ := Pattern.exists_parse_eq_ok_iff.2 hwritten
      rw [hp] at hparse
      cases hparse
    · rename_i p hparse
      have hchars := Pattern.parse_eq_ok_iff.1 hparse
      have hwritten := hchars ▸ p.wellWritten
      split at hresult
      · rename_i v hviolation
        have hbreaks := hchars ▸ Layout.violation?_eq_some_iff.1 hviolation
        exact .inl ⟨_, hresult.symm, .misfit hname hwritten hbreaks⟩
      · rename_i hviolation
        have harranged := hchars ▸ Layout.violation?_eq_none_iff.1 hviolation
        have hlength : p.fields.length = (written (bitChars parts.pattern)).length :=
          hchars ▸ p.length_fields
        split at hresult
        · rename_i hfits
          exact .inr ⟨_, hresult.symm,
            ⟨hnamed, hwritten, harranged, hfits.1, hlength ▸ hfits.2⟩, rfl, rfl, rfl, hchars⟩
        · rename_i hne
          exact .inl ⟨_, hresult.symm, .mismatch hname hwritten harranged (hlength ▸ hne)⟩

theorem defect_of_ofParts {error : SetupError} (h : ofParts parts = .error error) :
    parts.Defect error := by
  obtain ⟨e, he, hdefect⟩ | ⟨i, hi, -⟩ := ofParts_cases parts
  · rw [h, Except.error.injEq] at he
    exact he ▸ hdefect
  · rw [h] at hi
    cases hi

theorem legal_of_ofParts {i : Instruction} (h : ofParts parts = .ok i) :
    parts.Legal ∧ i.MadeOf parts := by
  obtain ⟨e, he, -⟩ | ⟨j, hj, hlegal⟩ := ofParts_cases parts
  · rw [h] at he
    cases he
  · rw [h, Except.ok.injEq] at hj
    exact hj ▸ hlegal

end Instruction

namespace InstructionParts.Defect

variable {parts : InstructionParts} {e e' : SetupError}

theorem not_legal (h : parts.Defect e) : ¬ parts.Legal := by
  intro hlegal
  cases h with
  | unnamed hblank =>
    obtain ⟨c, hc, hvisible⟩ := hlegal.named
    rw [hblank c hc] at hvisible
    cases hvisible
  | misread _ hwritten => exact hwritten hlegal.wellWritten
  | misfit _ _ hbreaks => exact hbreaks.not_arranges hlegal.arranged
  | mismatch _ _ _ hne => exact hne ⟨hlegal.layout_eq, hlegal.arity_eq⟩

/-- The kinds of defect exclude each other, because each but the first presumes what the ones before
it deny, and each determines its error. -/
theorem unique (h : parts.Defect e) (h' : parts.Defect e') : e = e' := by
  cases h <;> cases h' <;>
    grind [Text.exists_of_firstWord?, Layout.Breaks.unique, Layout.Breaks.not_arranges]

end InstructionParts.Defect

namespace Instruction

variable {parts : InstructionParts}

theorem exists_ofParts_eq_ok_iff : (∃ i, ofParts parts = .ok i) ↔ parts.Legal := by
  constructor
  · rintro ⟨i, hi⟩
    exact (legal_of_ofParts hi).1
  · intro hlegal
    rcases h : ofParts parts with e | i
    · exact absurd hlegal (defect_of_ofParts h).not_legal
    · exact ⟨i, rfl⟩

theorem ofParts_eq_error_iff {error : SetupError} :
    ofParts parts = .error error ↔ parts.Defect error := by
  refine ⟨defect_of_ofParts, fun hdefect => ?_⟩
  rcases h : ofParts parts with e | i
  · rw [(defect_of_ofParts h).unique hdefect]
  · exact absurd (legal_of_ofParts h).1 hdefect.not_legal

/-- Parts make an instruction exactly if they are legal, and otherwise the error is the first defect
that they have. An instruction that they make is the one they describe, and its fields are apart
from each other. -/
theorem ofParts_exactly (parts : InstructionParts) :
    ((∃ i, ofParts parts = .ok i) ↔ parts.Legal) ∧
      (∀ error, ofParts parts = .error error ↔ parts.Defect error) ∧
      ∀ i, ofParts parts = .ok i → i.MadeOf parts ∧ i.pattern.fields.Pairwise fun f g =>
        f.lsb ≠ g.lsb ∧ ∀ b, ¬ (f.Covers b ∧ g.Covers b) :=
  ⟨exists_ofParts_eq_ok_iff, fun _ => ofParts_eq_error_iff,
    fun i h => ⟨(legal_of_ofParts h).2, i.pattern.fields_apart⟩⟩

/-- Parts with all four defects, which are mended one after the other. -/
theorem ofParts_exactly_mended :
    ∃ blank torn misplaced mismatched mended : InstructionParts,
      blank = ⟨" ", "", .registerImmediate, "00000 sfssss fffff tttttttttttttttt", .assign .add⟩ ∧
      torn = { blank with usage := "spill $t0,$t1,4" } ∧
      misplaced = { torn with pattern := "000000 tttttttttttttttt sssss fffff" } ∧
      mismatched = { misplaced with pattern := "000000 sssss fffff tttttttttttttttt" } ∧
      mended = { mismatched with operation := .assign .addImmediate } ∧
      blank.Defect .emptyUsage ∧
      torn.Defect (.pattern "spill" (.scattered 's')) ∧
      misplaced.Defect (.pattern "spill" (.misfit .registerImmediate .immediate)) ∧
      mismatched.Defect (.operationMismatch "spill" 3 .threeRegister) ∧ mended.Legal ∧
      ∃ i, ofParts mended = .ok i ∧ i.MadeOf mended ∧
        i.pattern.fields.map Field.lsb = [16, 21, 0] ∧ i.pattern.fields.Pairwise fun f g =>
          f.lsb ≠ g.lsb ∧ ∀ b, ¬ (f.Covers b ∧ g.Covers b) := by
  obtain ⟨i, hi, hlsb⟩ : ∃ i, ofParts ⟨"spill $t0,$t1,4", "", .registerImmediate,
      "000000 sssss fffff tttttttttttttttt", .assign .addImmediate⟩ = .ok i ∧
      i.pattern.fields.map Field.lsb = [16, 21, 0] := ⟨_, rfl, rfl⟩
  obtain ⟨hmade, hapart⟩ := (ofParts_exactly _).2.2 i hi
  exact ⟨_, _, _, _, _, rfl, rfl, rfl, rfl, rfl, ((ofParts_exactly _).2.1 _).1 rfl,
    ((ofParts_exactly _).2.1 _).1 rfl, ((ofParts_exactly _).2.1 _).1 rfl,
    ((ofParts_exactly _).2.1 _).1 rfl, (ofParts_exactly _).1.1 ⟨i, hi⟩, i, hi, hmade, hlsb, hapart⟩

end Instruction

end CookingIsa
