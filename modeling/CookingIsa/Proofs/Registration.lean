import Mathlib
import CookingIsa.InstructionSet.Decoding
import CookingIsa.Proofs.ChefTable
import CookingIsa.Proofs.Pattern

/-!
# What instructions offered one after another make

Instructions are offered to a set in any order, and those that it refuses leave it as it was. In
what comes of this no two entries share a name or a word (`unambiguous_ofOffers`), because a word
that matches two patterns would make them overlap.
-/

namespace CookingIsa

namespace InstructionSet

/-- The set after an instruction was offered to it, whether or not it was refused. -/
def offer (s : InstructionSet) (i : Instruction) : InstructionSet :=
  match s.register i with
  | .ok s' => s'
  | .error _ => s

/-- The set that comes of offering instructions in order to the set without instructions. -/
def ofOffers (offers : List Instruction) : InstructionSet := offers.foldl offer empty

/-- A name and a word each mean at most one entry, and looking them up finds it. -/
structure Unambiguous (s : InstructionSet) : Prop where
  name_ne : ∀ (j k : Nat) (a b : Instruction), s.entries[j]? = some a → s.entries[k]? = some b →
    j ≠ k → a.name ≠ b.name
  find?_name : ∀ i ∈ s.entries, s.find? i.name = some i
  index_eq : ∀ (w : Word) (j k : Nat) (a b : Instruction), s.entries[j]? = some a →
    s.entries[k]? = some b → a.pattern.Matches w → b.pattern.Matches w → j = k
  decode?_eq_some : ∀ (w : Word) (i : Instruction), i ∈ s.entries → i.pattern.Matches w →
    s.decode? w = some ⟨w, i, i.operandsOf w⟩
  decode?_eq_none : ∀ w : Word, s.decode? w = none ↔ ∀ i ∈ s.entries, ¬ i.pattern.Matches w

variable (s : InstructionSet)

/-- What holds of any two different entries, whichever comes first, holds of two entries by their
positions. -/
theorem rel_of_index_ne {r : Instruction → Instruction → Prop} (hsymm : ∀ {a b}, r a b → r b a)
    (hr : s.entries.Pairwise r) {j k : Nat} {a b : Instruction} (ha : s.entries[j]? = some a)
    (hb : s.entries[k]? = some b) (hjk : j ≠ k) : r a b := by
  obtain ⟨hj, rfl⟩ := List.getElem?_eq_some_iff.1 ha
  obtain ⟨hk, rfl⟩ := List.getElem?_eq_some_iff.1 hb
  rw [List.pairwise_iff_getElem] at hr
  rcases Nat.lt_or_gt_of_ne hjk with h | h
  · exact hr j k hj hk h
  · exact hsymm (hr k j hk hj h)

theorem name_ne_of_index_ne {j k : Nat} {a b : Instruction} (ha : s.entries[j]? = some a)
    (hb : s.entries[k]? = some b) (hjk : j ≠ k) : a.name ≠ b.name :=
  s.rel_of_index_ne Ne.symm s.distinct ha hb hjk

theorem index_eq_of_matches {w : Word} {j k : Nat} {a b : Instruction}
    (ha : s.entries[j]? = some a) (hb : s.entries[k]? = some b) (hwa : a.pattern.Matches w)
    (hwb : b.pattern.Matches w) : j = k := by
  by_contra hjk
  have hsymm : ∀ {a b : Instruction}, ¬ a.pattern.Overlaps b.pattern →
      ¬ b.pattern.Overlaps a.pattern := fun h hb => h hb.symm
  refine s.rel_of_index_ne hsymm s.disjoint ha hb hjk ?_
  exact a.pattern.overlaps_iff_exists_matches.2 ⟨w, hwa, hwb⟩

theorem find?_eq_some_iff {name : String} {i : Instruction} :
    s.find? name = some i ↔ i ∈ s.entries ∧ i.name = name := by
  constructor
  · intro h
    exact ⟨List.mem_of_find?_eq_some h, by simpa using List.find?_some h⟩
  · rintro ⟨hi, rfl⟩
    rcases hf : s.find? i.name with _ | b
    · have := List.find?_eq_none.1 hf i hi
      simp at this
    · have hb : b ∈ s.entries := List.mem_of_find?_eq_some hf
      have hname : b.name = i.name := by simpa using List.find?_some hf
      obtain ⟨j, hj⟩ := List.getElem?_of_mem hb
      obtain ⟨k, hk⟩ := List.getElem?_of_mem hi
      by_cases hjk : j = k
      · subst hjk
        rwa [hj] at hk
      · exact absurd hname (s.name_ne_of_index_ne hj hk hjk)

theorem lookup?_eq_some_iff {w : Word} {i : Instruction} :
    s.lookup? w = some i ↔ i ∈ s.entries ∧ i.pattern.Matches w := by
  constructor
  · intro h
    exact ⟨List.mem_of_find?_eq_some h, by simpa using List.find?_some h⟩
  · rintro ⟨hi, hw⟩
    rcases hf : s.lookup? w with _ | b
    · have := List.find?_eq_none.1 hf i hi
      simp [hw] at this
    · have hb : b ∈ s.entries := List.mem_of_find?_eq_some hf
      have hwb : b.pattern.Matches w := by simpa using List.find?_some hf
      obtain ⟨j, hj⟩ := List.getElem?_of_mem hb
      obtain ⟨k, hk⟩ := List.getElem?_of_mem hi
      obtain rfl := s.index_eq_of_matches hj hk hwb hw
      rwa [hj] at hk

theorem lookup?_eq_none_iff {w : Word} :
    s.lookup? w = none ↔ ∀ i ∈ s.entries, ¬ i.pattern.Matches w := by
  simp [lookup?]

/-- A word is decoded as the entry that it matches, with the operands that it holds for it. -/
theorem decode?_eq_some_iff {w : Word} {d : Decoding} :
    s.decode? w = some d ↔ d.instruction ∈ s.entries ∧ d.instruction.pattern.Matches w ∧
      d.word = w ∧ d.operands = d.instruction.operandsOf w := by
  simp only [decode?, Option.map_eq_some_iff, lookup?_eq_some_iff]
  constructor
  · rintro ⟨i, ⟨hi, hw⟩, rfl⟩
    exact ⟨hi, hw, rfl, rfl⟩
  · rintro ⟨hi, hw, hword, hops⟩
    refine ⟨d.instruction, ⟨hi, hw⟩, ?_⟩
    rw [← hops, ← hword]

theorem decode?_eq_none_iff {w : Word} :
    s.decode? w = none ↔ ∀ i ∈ s.entries, ¬ i.pattern.Matches w := by
  rw [decode?, Option.map_eq_none_iff, lookup?_eq_none_iff]

theorem unambiguous_ofOffers (offers : List Instruction) : (ofOffers offers).Unambiguous where
  name_ne _ _ _ _ ha hb hjk := name_ne_of_index_ne _ ha hb hjk
  find?_name _ hi := (find?_eq_some_iff _).2 ⟨hi, rfl⟩
  index_eq _ _ _ _ _ ha hb hwa hwb := index_eq_of_matches _ ha hb hwa hwb
  decode?_eq_some _ _ hi hw := (decode?_eq_some_iff _).2 ⟨hi, hw, rfl, rfl⟩
  decode?_eq_none _ := decode?_eq_none_iff _

/-- The second offer of an instruction is refused, and the next one is not. -/
theorem unambiguous_ofOffers_twice :
    (ofOffers (ChefAssembly.instructions.take 1 ++ ChefAssembly.instructions.take 2)).entries.map
        Instruction.name = ["season", "mix"] ∧
      (ofOffers (ChefAssembly.instructions.take 1 ++ ChefAssembly.instructions.take 2)).Unambiguous :=
  ⟨by decide +kernel, unambiguous_ofOffers _⟩

end InstructionSet

end CookingIsa
