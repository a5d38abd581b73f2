import Mathlib
import CookingIsa.Proofs.Except
import CookingIsa.Proofs.Registration

/-!
# What a set refuses and what a new entry changes

An instruction is refused for exactly two reasons: its name is taken, or else it shares a word with
an entry, and then the first such entry is blamed (`register_eq_error_iff`). A refused instruction
leaves no trace, and an accepted one takes only words that nothing matched and only its own name
(`register_decides`).
-/

namespace CookingIsa

/-- Some word matches the patterns of both instructions. -/
def Instruction.SharesWord (i j : Instruction) : Prop :=
  ∃ w, i.pattern.Matches w ∧ j.pattern.Matches w

namespace InstructionSet

variable {s s' : InstructionSet} {i e : Instruction}

/-- Why a set refuses an instruction. A shared word is a reason only if the name is free, and is
blamed on the first entry that has one. -/
inductive Refusal (s : InstructionSet) (i : Instruction) : SetupError → Prop
  | duplicate (htaken : ∃ e ∈ s.entries, e.name = i.name) :
      Refusal s i (.duplicateMnemonic i.name)
  | overlap {before after : List Instruction} {e : Instruction}
      (hfree : ∀ e ∈ s.entries, e.name ≠ i.name) (hentries : s.entries = before ++ e :: after)
      (hshared : e.SharesWord i) (hfirst : ∀ e' ∈ before, ¬ e'.SharesWord i) :
      Refusal s i (.overlap i.name e.name)

/-- A set has one more entry than another, at its end. Of all names and words only those of the new
entry are looked up with another result, and those were found nowhere before. -/
structure Extends (s : InstructionSet) (i : Instruction) (s' : InstructionSet) : Prop where
  entries_eq : s'.entries = s.entries ++ [i]
  decode?_of_some : ∀ w d, s.decode? w = some d → s'.decode? w = some d
  decode?_of_none : ∀ w, s.decode? w = none →
    s'.decode? w = if i.pattern.Matches w then some ⟨w, i, i.operandsOf w⟩ else none
  find?_of_ne : ∀ name, name ≠ i.name → s'.find? name = s.find? name
  find?_before : s.find? i.name = none
  find?_after : s'.find? i.name = some i

theorem find?_eq_none_iff {name : String} :
    s.find? name = none ↔ ∀ e ∈ s.entries, e.name ≠ name := by
  simp [find?]

theorem firstOverlap_eq_some_iff :
    (s.entries.find? fun e => e.pattern.Overlaps i.pattern) = some e ↔
      ∃ before after, s.entries = before ++ e :: after ∧ e.SharesWord i ∧
        ∀ e' ∈ before, ¬ e'.SharesWord i := by
  simp only [List.find?_eq_some_iff_append, Pattern.overlaps_iff_exists_matches,
    Instruction.SharesWord, Bool.not_eq_eq_eq_not, Bool.not_true, decide_eq_true_eq,
    decide_eq_false_iff_not]
  tauto

theorem register_of_taken (h : s.find? i.name = some e) :
    s.register i = .error (.duplicateMnemonic i.name) := by
  unfold register
  split
  · rfl
  · rename_i hnone
    rw [h] at hnone
    cases hnone

theorem register_of_overlap (hname : s.find? i.name = none)
    (h : (s.entries.find? fun e => e.pattern.Overlaps i.pattern) = some e) :
    s.register i = .error (.overlap i.name e.name) := by
  unfold register
  split
  · rename_i hsome
    rw [hname] at hsome
    cases hsome
  · split
    · rename_i e' he'
      obtain rfl : e = e' := Option.some.inj (h.symm.trans he')
      rfl
    · rename_i hnone
      rw [h] at hnone
      cases hnone

theorem refusal_of_register {error : SetupError} (h : s.register i = .error error) :
    s.Refusal i error := by
  unfold register at h
  split at h
  · rename_i e he
    cases h
    exact .duplicate ⟨e, s.find?_eq_some_iff.1 he⟩
  · rename_i hname
    split at h
    · rename_i e he
      cases h
      obtain ⟨before, after, hentries, hshared, hfirst⟩ := firstOverlap_eq_some_iff.1 he
      exact .overlap (find?_eq_none_iff.1 hname) hentries hshared hfirst
    · cases h

theorem register_eq_error_iff {error : SetupError} :
    s.register i = .error error ↔ s.Refusal i error := by
  refine ⟨refusal_of_register, fun h => ?_⟩
  cases h with
  | duplicate htaken =>
    obtain ⟨e, he, hname⟩ := htaken
    exact register_of_taken (s.find?_eq_some_iff.2 ⟨he, hname⟩)
  | overlap hfree hentries hshared hfirst =>
    exact register_of_overlap (find?_eq_none_iff.2 hfree)
      (firstOverlap_eq_some_iff.2 ⟨_, _, hentries, hshared, hfirst⟩)

/-- The new entry comes after all that were found before. -/
theorem find?_of_entries_eq (h : s'.entries = s.entries ++ [i]) (name : String) :
    s'.find? name = (s.find? name).or (if i.name = name then some i else none) := by
  simp only [find?, h, List.find?_append, List.find?_singleton, decide_eq_true_eq]

theorem decode?_of_entries_eq (h : s'.entries = s.entries ++ [i]) (w : Word) :
    s'.decode? w =
      (s.decode? w).or (if i.pattern.Matches w then some ⟨w, i, i.operandsOf w⟩ else none) := by
  simp only [decode?, lookup?, h, List.find?_append, List.find?_singleton, decide_eq_true_eq,
    Option.map_or]
  split_ifs <;> rfl

theorem extends_of_register (h : s.register i = .ok s') : s.Extends i s' := by
  have hentries := entries_of_register h
  have hfree : s.find? i.name = none := by
    rcases hf : s.find? i.name with _ | e
    · rfl
    · rw [register_of_taken hf] at h
      cases h
  refine ⟨hentries, fun w d hd => ?_, fun w hw => ?_, fun name hne => ?_, hfree, ?_⟩
  · rw [decode?_of_entries_eq hentries, hd, Option.some_or]
  · rw [decode?_of_entries_eq hentries, hw, Option.none_or]
  · rw [find?_of_entries_eq hentries, if_neg (Ne.symm hne), Option.or_none]
  · rw [find?_of_entries_eq hentries, hfree, Option.none_or, if_pos rfl]

theorem offer_of_error {error : SetupError} (h : s.register i = .error error) :
    s.offer i = s := by
  simp [offer, h]

/-- Registering an instruction fails for exactly the two reasons there are, of which a taken name
comes first, and then leaves the set as it was. If it succeeds, the set is extended by that
instruction and by nothing else. -/
theorem register_decides (s : InstructionSet) (i : Instruction) :
    (∀ error, s.register i = .error error ↔ s.Refusal i error) ∧
      (∀ error, s.register i = .error error → s.offer i = s) ∧
      ∀ s', s.register i = .ok s' → s.Extends i s' :=
  ⟨fun _ => register_eq_error_iff, fun _ => offer_of_error, fun _ => extends_of_register⟩

/-- The first three instructions of Chef Assembly are offered another `mix`, which shares its word
as well, then `toss`, which shares words with `mix` and `chop`, and last `spill`. -/
theorem register_decides_mix :
    ∃ (s s' : InstructionSet) (mix toss spill : Instruction),
      s = ofOffers (ChefAssembly.instructions.take 3) ∧
      s.entries.map Instruction.name = ["season", "mix", "chop"] ∧
      [mix, toss, spill].map Instruction.name = ["mix", "toss", "spill"] ∧
      s.register mix = .error (.duplicateMnemonic "mix") ∧
      s.Refusal mix (.duplicateMnemonic "mix") ∧ s.offer mix = s ∧
      s.register toss = .error (.overlap "toss" "mix") ∧
      s.Refusal toss (.overlap "toss" "mix") ∧ s.offer toss = s ∧
      s.register spill = .ok s' ∧ s.Extends spill s' := by
  obtain ⟨s, hs⟩ : ∃ s, s = ofOffers (ChefAssembly.instructions.take 3) := ⟨_, rfl⟩
  have hnames : s.entries.map Instruction.name = ["season", "mix", "chop"] := by
    rw [hs]
    decide +kernel
  have hanswers : (([⟨"mix", "", .threeRegister, "000000 sssss ttttt fffff 00000 100000",
          .assign .add⟩,
        ⟨"toss $t0,$t1,12", "", .registerImmediate, "000000 sssss fffff tttttttttttttttt",
          .assign .addImmediate⟩,
        ⟨"spill $t0,$t1,$t2", "", .threeRegister, "000000 sssss ttttt fffff 00000 100010",
          .assign .subtract⟩] : List InstructionParts).filterMap
        fun parts => (Instruction.ofParts parts).toOption).map
        (fun i => (i.name, (s.register i).map fun s' => s'.size)) =
      [("mix", .error (.duplicateMnemonic "mix")), ("toss", .error (.overlap "toss" "mix")),
        ("spill", .ok 4)] := by
    rw [hs]
    decide +kernel
  obtain ⟨mix, _, -, hmix, hanswers⟩ := List.map_eq_cons_iff.1 hanswers
  obtain ⟨toss, _, -, htoss, hanswers⟩ := List.map_eq_cons_iff.1 hanswers
  obtain ⟨spill, _, -, hspill, -⟩ := List.map_eq_cons_iff.1 hanswers
  simp only [Prod.mk.injEq, map_eq_error_iff, map_eq_ok_iff] at hmix htoss hspill
  obtain ⟨s', hs', -⟩ := hspill.2
  refine ⟨s, s', mix, toss, spill, hs, hnames, ?_, hmix.2, ((register_decides s mix).1 _).1 hmix.2,
    (register_decides s mix).2.1 _ hmix.2, htoss.2, ((register_decides s toss).1 _).1 htoss.2,
    (register_decides s toss).2.1 _ htoss.2, hs', (register_decides s spill).2.2 _ hs'⟩
  rw [List.map_cons, List.map_cons, List.map_cons, hmix.1, htoss.1, hspill.1]
  rfl

end InstructionSet

end CookingIsa
