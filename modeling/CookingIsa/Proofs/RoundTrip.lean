import Mathlib
import CookingIsa.Proofs.Layout
import CookingIsa.Proofs.Registration

/-!
# Encoding and decoding undo each other

The fixed bits and the fields of an instruction account for every bit of its words. So the operands
that a matching word holds encode to that word again (`encode_operandsOf`), and the word of some
operands holds them, an immediate with its sign (`operandsOf_of_encode`). In a set of instructions
no other entry can take the word (`decode?_of_encode`), and the words that decode are those that
some entry encodes (`encode_of_decode?`).
-/

namespace CookingIsa

open Pattern (held)

namespace Instruction

variable (i : Instruction) {operands : List Int} {w : Word}

theorem getElem?_operandsOf (w : Word) (j : Nat) :
    (i.operandsOf w).toList[j]? = i.pattern.fields[j]?.map (i.layout.operandOf w) := by
  simp [operandsOf, Layout.extract]

theorem matches_of_encode (h : i.encode operands = .ok w) : i.pattern.Matches w :=
  (Layout.encode_eq_ok_iff.1 h).1

/-- The word of some operands holds them, each as it is read back. -/
theorem operandsOf_of_encode (h : i.encode operands = .ok w) :
    (i.operandsOf w).toList = operands.mapIdx i.layout.readBack := by
  have hheld := (Layout.encode_eq_ok_iff.1 h).2
  refine List.ext_getElem? fun j => ?_
  have hj := congrArg (·[j]?) hheld
  simp only [List.getElem?_mapIdx, List.getElem?_map] at hj
  rw [i.getElem?_operandsOf, List.getElem?_mapIdx]
  rcases hf : i.pattern.fields[j]? with _ | f <;> rcases hv : operands[j]? with _ | value <;>
    rw [hf, hv] at hj <;> simp only [Option.map_none, Option.map_some, reduceCtorEq] at hj ⊢
  rw [Option.some.injEq] at hj ⊢
  exact Layout.operandOf_of_fieldValue i.fits hf hj

/-- The operands that a matching word holds are encoded as that word. -/
theorem encode_operandsOf (hw : i.pattern.Matches w) :
    i.encode (i.operandsOf w).toList = .ok w := by
  refine Layout.encode_eq_ok_iff.2 ⟨hw, List.ext_getElem? fun j => ?_⟩
  rw [List.getElem?_mapIdx, i.getElem?_operandsOf, List.getElem?_map]
  rcases hf : i.pattern.fields[j]? with _ | f
  · rfl
  · exact congrArg some (Layout.fieldValue_operandOf i.fits hf)

theorem admits_operandsOf (w : Word) {j : Nat} {value : Int}
    (h : (i.operandsOf w).get? j = some value) : i.layout.Admits j value := by
  rw [Operands.get?, i.getElem?_operandsOf] at h
  obtain ⟨f, hf, rfl⟩ := Option.map_eq_some_iff.1 h
  exact Layout.admits_operandOf i.fits hf

end Instruction

namespace InstructionSet

/-- A word that an entry encodes is decoded as that very entry, with the operands it was given; only
an immediate given without sign comes back with one. -/
theorem decode?_of_encode (offers : List Instruction) {i : Instruction}
    (hi : i ∈ (ofOffers offers).entries) {operands : List Int} {w : Word}
    (h : i.encode operands = .ok w) :
    ∃ d, (ofOffers offers).decode? w = some d ∧ d.instruction = i ∧ d.word = w ∧
      d.operands.toList = operands.mapIdx i.layout.readBack :=
  ⟨⟨w, i, i.operandsOf w⟩, (decode?_eq_some_iff _).2 ⟨hi, i.matches_of_encode h, rfl, rfl⟩, rfl, rfl,
    i.operandsOf_of_encode h⟩

/-- The largest immediate without sign comes back as minus one. -/
theorem decode?_of_encode_addImmediate :
    ∃ i ∈ (ofOffers (ChefAssembly.instructions.take 2)).entries,
      i.encode [8, 9, 0xffff] = .ok 0x2128ffff#32 ∧
        [8, 9, 0xffff].mapIdx i.layout.readBack = [8, 9, -1] ∧
        ∃ d, (ofOffers (ChefAssembly.instructions.take 2)).decode? 0x2128ffff#32 = some d ∧
          d.instruction = i ∧ d.word = 0x2128ffff#32 ∧
          d.operands.toList = [8, 9, 0xffff].mapIdx i.layout.readBack := by
  have hfound : ∃ i ∈ (ofOffers (ChefAssembly.instructions.take 2)).entries,
      i.encode [8, 9, 0xffff] = .ok 0x2128ffff#32 ∧
        [8, 9, 0xffff].mapIdx i.layout.readBack = [8, 9, -1] := by decide +kernel
  obtain ⟨i, hi, hencode, hread⟩ := hfound
  exact ⟨i, hi, hencode, hread, decode?_of_encode _ hi hencode⟩

/-- A decoded word is encoded from what it was decoded as, and holds as many operands as its
operation takes, each within its range. So the words that decode are those that some entry
encodes. -/
theorem encode_of_decode? (offers : List Instruction) (w : Word) :
    (∀ d, (ofOffers offers).decode? w = some d →
      d.instruction ∈ (ofOffers offers).entries ∧
        d.instruction.encode d.operands.toList = .ok w ∧
        d.operands.length = d.instruction.operation.arity ∧
        ∀ j value, d.operands.get? j = some value → d.instruction.layout.Admits j value) ∧
      ((∃ d, (ofOffers offers).decode? w = some d) ↔
        ∃ i ∈ (ofOffers offers).entries, ∃ operands, i.encode operands = .ok w) := by
  refine ⟨fun d hd => ?_, fun ⟨d, hd⟩ => ?_, fun ⟨i, hi, operands, h⟩ => ?_⟩
  · obtain ⟨hi, hw, -, hops⟩ := (decode?_eq_some_iff _).1 hd
    rw [hops]
    exact ⟨hi, d.instruction.encode_operandsOf hw, d.instruction.length_operandsOf w,
      fun _ _ => d.instruction.admits_operandsOf w⟩
  · obtain ⟨hi, hw, -, -⟩ := (decode?_eq_some_iff _).1 hd
    exact ⟨d.instruction, hi, _, d.instruction.encode_operandsOf hw⟩
  · exact ⟨_, (decode?_eq_some_iff (d := ⟨w, i, i.operandsOf w⟩) _).2
      ⟨hi, i.matches_of_encode h, rfl, rfl⟩⟩

/-- The word whose immediate has all bits set decodes, and is encoded again from minus one. -/
theorem encode_of_decode?_addImmediate :
    ∃ d, (ofOffers (ChefAssembly.instructions.take 2)).decode? 0x2128ffff#32 = some d ∧
      d.operands.toList = [8, 9, -1] ∧ d.instruction.encode d.operands.toList = .ok 0x2128ffff#32 ∧
        d.operands.length = d.instruction.operation.arity ∧
        ∀ j value, d.operands.get? j = some value → d.instruction.layout.Admits j value := by
  have hdecode : ((ofOffers (ChefAssembly.instructions.take 2)).decode? 0x2128ffff#32).map
      (fun d => d.operands.toList) = some [8, 9, -1] := by decide +kernel
  obtain ⟨d, hd, hoperands⟩ := Option.map_eq_some_iff.1 hdecode
  obtain ⟨-, hencode, hlength, hadmits⟩ := (encode_of_decode? _ _).1 d hd
  exact ⟨d, hd, hoperands, hencode, hlength, hadmits⟩

end InstructionSet

end CookingIsa
