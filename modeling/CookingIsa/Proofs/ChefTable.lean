import Mathlib
import CookingIsa.ChefAssembly

/-!
# The table of Chef Assembly is an instruction set

Every line of the table is an instruction, and none is refused for one before it. So the set that
is built from the table has the instructions of its lines as entries (`instructionSet_eq`).
-/

namespace CookingIsa

namespace InstructionSet

variable {s s' : InstructionSet} {i : Instruction}

theorem entries_of_register (h : s.register i = .ok s') : s'.entries = s.entries ++ [i] := by
  unfold register at h
  split at h
  · cases h
  · split at h
    · cases h
    · cases h
      rfl

theorem entries_of_foldlM : ∀ {parts : List InstructionParts} {s : InstructionSet},
    parts.foldlM (fun s part => do s.register (← Instruction.ofParts part)) s = .ok s' →
      s'.entries = s.entries ++ parts.filterMap fun part => (Instruction.ofParts part).toOption
  | [], s, h => by
    cases h
    simp
  | part :: parts, s, h => by
    rw [List.foldlM_cons] at h
    rcases hi : Instruction.ofParts part with e | i
    · rw [hi] at h
      cases h
    rcases hs : s.register i with e | s₁
    · simp only [hi, bind, Except.bind, hs] at h
      cases h
    · simp only [hi, bind, Except.bind, hs] at h
      rw [entries_of_foldlM h, entries_of_register hs]
      simp [hi, Except.toOption]

end InstructionSet

namespace ChefAssembly

/-- The instructions of the table in order. -/
def instructions : List Instruction :=
  table.filterMap fun parts => (Instruction.ofParts parts).toOption

/-- The instructions of the table for some of its operations. -/
def instructionsFor (operations : List Operation) : List Instruction :=
  (table.filter fun parts => parts.operation ∈ operations).filterMap fun parts =>
    (Instruction.ofParts parts).toOption

theorem instructionSet_eq_ok : ∃ s, instructionSet = .ok s := by
  have hok : instructionSet.toOption.isSome = true := by decide +kernel
  rcases hs : instructionSet with e | s
  · rw [hs] at hok
    cases hok
  · exact ⟨s, rfl⟩

theorem entries_of_instructionSet {s : InstructionSet} (h : instructionSet = .ok s) :
    s.entries = instructions :=
  InstructionSet.entries_of_foldlM h

/-- The set with the instructions of the table. -/
def complete : InstructionSet where
  entries := instructions
  distinct := by
    obtain ⟨s, hs⟩ := instructionSet_eq_ok
    rw [← entries_of_instructionSet hs]
    exact s.distinct
  disjoint := by
    obtain ⟨s, hs⟩ := instructionSet_eq_ok
    rw [← entries_of_instructionSet hs]
    exact s.disjoint

theorem instructionSet_eq : instructionSet = .ok complete := by
  obtain ⟨⟨entries, _, _⟩, hs⟩ := instructionSet_eq_ok
  obtain rfl : entries = instructions := entries_of_instructionSet hs
  exact hs

end ChefAssembly

end CookingIsa
