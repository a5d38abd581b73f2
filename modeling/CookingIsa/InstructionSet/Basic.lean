import CookingIsa.Instruction.Basic

/-!
# Instruction sets

An instruction set grows by one instruction at a time, and refuses one whose name is taken or whose
words could be taken for those of another. So a name finds one instruction and a word matches at
most one.
-/

namespace CookingIsa

/-- Instructions in the order of their registration, no two alike by name or by word. -/
structure InstructionSet where
  entries : List Instruction
  distinct : entries.Pairwise fun a b => a.name ≠ b.name
  disjoint : entries.Pairwise fun a b => ¬ a.pattern.Overlaps b.pattern

namespace InstructionSet

def empty : InstructionSet := ⟨[], .nil, .nil⟩

def size (s : InstructionSet) : Nat := s.entries.length

def find? (s : InstructionSet) (name : String) : Option Instruction :=
  s.entries.find? fun i => i.name = name

/-- The set with one more instruction at its end. A taken name is found before a shared word. -/
def register (s : InstructionSet) (i : Instruction) : Except SetupError InstructionSet :=
  match hname : s.find? i.name with
  | some _ => .error (.duplicateMnemonic i.name)
  | none =>
    match hword : s.entries.find? fun e => e.pattern.Overlaps i.pattern with
    | some e => .error (.overlap i.name e.name)
    | none => .ok
      { entries := s.entries ++ [i]
        distinct := List.pairwise_append.2 ⟨s.distinct, List.pairwise_singleton _ i, by
          simpa [find?] using hname⟩
        disjoint := List.pairwise_append.2 ⟨s.disjoint, List.pairwise_singleton _ i, by
          simpa using hword⟩ }

/-- The set of the given instructions in order, or what is wrong with the first that cannot be built
or registered. -/
def ofParts (parts : List InstructionParts) : Except SetupError InstructionSet :=
  parts.foldlM (fun s part => do s.register (← Instruction.ofParts part)) empty

def lookup? (s : InstructionSet) (w : Word) : Option Instruction :=
  s.entries.find? fun i => i.pattern.Matches w

end InstructionSet

end CookingIsa
