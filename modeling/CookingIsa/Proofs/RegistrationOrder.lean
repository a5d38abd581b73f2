import Mathlib
import CookingIsa.Proofs.Effect
import CookingIsa.Proofs.InBounds
import CookingIsa.Proofs.Registration

/-!
# The order of registration does not matter

Instructions can be registered one after another exactly if no two of them share a name or a word,
whichever of the two comes first (`registerAll_eq_ok_iff`). What a name finds and what a word is
decoded as depends on the entries of a set but not on their order, and a session knows its set by
what it decodes. So sets of the same instructions in another order, and the sessions with them, are
not to be told apart (`registerAll_perm`).
-/

namespace CookingIsa

namespace InstructionSet

variable {s s' : InstructionSet} {i : Instruction} {l l' : List Instruction}

/-- The set of instructions registered one after another, unless one of them is refused. -/
def registerAll (instructions : List Instruction) : Except SetupError InstructionSet :=
  instructions.foldlM register empty

theorem eq_of_entries_eq (h : s.entries = s'.entries) : s = s' := by
  cases s
  cases s'
  cases h
  rfl

theorem register_eq_ok_iff : s.register i = .ok s' ↔ s'.entries = s.entries ++ [i] := by
  constructor
  · exact entries_of_register
  · intro h
    unfold register
    have hdistinct := s'.distinct
    have hdisjoint := s'.disjoint
    rw [h, List.pairwise_append] at hdistinct hdisjoint
    split
    · rename_i e he
      obtain ⟨hmem, hname⟩ := (s.find?_eq_some_iff).1 he
      exact absurd hname (hdistinct.2.2 e hmem i (List.mem_singleton_self i))
    · split
      · rename_i e he
        have hmem := List.mem_of_find?_eq_some he
        have hoverlap : e.pattern.Overlaps i.pattern := by simpa using List.find?_some he
        exact absurd hoverlap (hdisjoint.2.2 e hmem i (List.mem_singleton_self i))
      · exact congrArg Except.ok (eq_of_entries_eq h.symm)

theorem foldlM_register_eq_ok_iff : ∀ {l : List Instruction} {s : InstructionSet},
    l.foldlM register s = .ok s' ↔ s'.entries = s.entries ++ l
  | [], s => by
    simp only [List.foldlM_nil, pure, Except.pure, Except.ok.injEq, List.append_nil]
    exact ⟨fun h => h ▸ rfl, fun h => eq_of_entries_eq h.symm⟩
  | i :: l, s => by
    rw [List.foldlM_cons, bind_eq_ok_iff]
    constructor
    · rintro ⟨s₁, h₁, h⟩
      rw [foldlM_register_eq_ok_iff.1 h, register_eq_ok_iff.1 h₁, List.append_assoc]
      rfl
    · intro h
      -- The entries that come before the rest make a set of their own.
      have happend : s'.entries = (s.entries ++ [i]) ++ l := by simpa using h
      have hdistinct := s'.distinct
      have hdisjoint := s'.disjoint
      rw [happend, List.pairwise_append] at hdistinct hdisjoint
      exact ⟨⟨s.entries ++ [i], hdistinct.1, hdisjoint.1⟩, register_eq_ok_iff.2 rfl,
        foldlM_register_eq_ok_iff.2 happend⟩

theorem registerAll_eq_ok_iff : registerAll l = .ok s ↔ s.entries = l :=
  foldlM_register_eq_ok_iff

theorem exists_registerAll_of_perm (h : l.Perm l') (hs : registerAll l = .ok s) :
    ∃ s', registerAll l' = .ok s' := by
  rw [registerAll_eq_ok_iff] at hs
  have hdistinct := s.distinct
  have hdisjoint := s.disjoint
  rw [hs] at hdistinct hdisjoint
  refine ⟨⟨l', ?_, ?_⟩, registerAll_eq_ok_iff.2 rfl⟩
  · exact h.pairwise hdistinct fun hne => hne.symm
  · exact h.pairwise hdisjoint fun hne ho => hne ho.symm

theorem find?_congr (h : ∀ i, i ∈ s.entries ↔ i ∈ s'.entries) (name : String) :
    s.find? name = s'.find? name := by
  ext i
  rw [find?_eq_some_iff, find?_eq_some_iff, h]

theorem decode?_congr (h : ∀ i, i ∈ s.entries ↔ i ∈ s'.entries) (w : Word) :
    s.decode? w = s'.decode? w := by
  refine Option.ext fun d => ?_
  rw [decode?_eq_some_iff, decode?_eq_some_iff, h]

end InstructionSet

namespace Session

variable {κ : Type} [Console κ]

def withInstructions (s : Session) (instructions : InstructionSet) : Session :=
  { s with instructions }

theorem step_withInstructions {s : Session} {instructions : InstructionSet}
    (h : ∀ w, s.instructions.decode? w = instructions.decode? w) (w : Word) (m : Machine κ) :
    (s.withInstructions instructions).step w m = s.step w m := by
  simp only [step, withInstructions, h]

theorem run_withInstructions {instructions : InstructionSet} :
    ∀ (words : List Word) {s : Session} (m : Machine κ),
      (∀ w, s.instructions.decode? w = instructions.decode? w) →
        (s.withInstructions instructions).run m words = s.run m words
  | [], _, _, _ => rfl
  | w :: words, s, m, h => by
    have ih := run_withInstructions words (s := s.after (s.step w m)) (s.step w m).machine h
    simp only [run, step_withInstructions h]
    rw [List.cons.injEq]
    exact ⟨rfl, ih⟩

end Session

namespace InstructionSet

variable {l l' : List Instruction}

/-- If some instructions can be registered in one order, they can be in any other. The two sets then
find the same under every name and decode every word alike, and sessions with them that have the
same settings take the same steps, whatever they start from. -/
theorem registerAll_perm (h : l.Perm l') :
    ((∃ s, registerAll l = .ok s) ↔ ∃ s', registerAll l' = .ok s') ∧
      ∀ s s', registerAll l = .ok s → registerAll l' = .ok s' →
        (∀ w, s.decode? w = s'.decode? w) ∧ (∀ name, s.find? name = s'.find? name) ∧
          ∀ config core, Session.create s config = .ok core →
            ∃ core', Session.create s' config = .ok core' ∧
              ∀ {κ : Type} [Console κ] (b : Basket) (m : Machine κ) (words : List Word),
                (core'.withBasket b).run m words = (core.withBasket b).run m words := by
  refine ⟨⟨fun ⟨_, hs⟩ => exists_registerAll_of_perm h hs,
    fun ⟨_, hs⟩ => exists_registerAll_of_perm h.symm hs⟩, fun s s' hs hs' => ?_⟩
  have hmem : ∀ i, i ∈ s.entries ↔ i ∈ s'.entries := by
    intro i
    rw [registerAll_eq_ok_iff.1 hs, registerAll_eq_ok_iff.1 hs']
    exact h.mem_iff
  refine ⟨decode?_congr hmem, find?_congr hmem, fun config core hcore => ?_⟩
  obtain ⟨hregisters, hcore⟩ := (Session.create_eq_ok_iff _ _ _).1 hcore
  refine ⟨core.withInstructions s', (Session.create_eq_ok_iff _ _ _).2 ⟨hregisters, ?_⟩,
    fun b m words => ?_⟩
  · rw [hcore]
    rfl
  · refine Session.run_withInstructions words (s := core.withBasket b) m ?_
    rw [hcore]
    exact decode?_congr hmem

/-- Three instructions are registered in their order and in reverse, and sessions with the two sets
step an addition, a word that matches nothing and a division by zero. -/
theorem registerAll_perm_reverse :
    ∃ (l : List Instruction) (s s' : InstructionSet) (core core' : Session)
        (m : Machine ScriptedConsole) (words : List Word),
      l = ChefAssembly.instructions.take 3 ∧ registerAll l = .ok s ∧
      registerAll l.reverse = .ok s' ∧ s.entries.map Instruction.name = ["season", "mix", "chop"] ∧
      s'.entries.map Instruction.name = ["chop", "mix", "season"] ∧
      (∀ w, s.decode? w = s'.decode? w) ∧
      Session.create s {} = .ok core ∧ Session.create s' {} = .ok core' ∧
      words = [0x01084020#32, 0xffffffff#32, 0x0109401a#32] ∧
      (core.withBasket .empty).run m words = (core'.withBasket .empty).run m words := by
  obtain ⟨l, hl⟩ : ∃ l, l = ChefAssembly.instructions.take 3 := ⟨_, rfl⟩
  have hok : ((registerAll l).toOption.map fun s => s.entries.map Instruction.name) =
      some ["season", "mix", "chop"] := by
    rw [hl]
    decide +kernel
  obtain ⟨s, hs, hnames⟩ := Option.map_eq_some_iff.1 hok
  have hs : registerAll l = .ok s := by
    rcases hr : registerAll l with e | s₁ <;> rw [hr] at hs <;> cases hs
    rfl
  obtain ⟨hiff, hagree⟩ := registerAll_perm (List.reverse_perm l).symm
  obtain ⟨s', hs'⟩ := hiff.1 ⟨s, hs⟩
  obtain ⟨hdecode, -, hsessions⟩ := hagree s s' hs hs'
  have hcore := @Session.create_eq_fresh s {} rfl
  obtain ⟨core', hcore', hrun⟩ := hsessions {} _ hcore
  have hentries : s'.entries = s.entries.reverse := by
    rw [registerAll_eq_ok_iff.1 hs, registerAll_eq_ok_iff.1 hs']
  refine ⟨l, s, s', _, core', Machine.fresh 0#32 0 (ScriptedConsole.ofInput []), _, hl, hs, hs',
    hnames, ?_, hdecode, hcore, hcore', rfl, (hrun .empty _ _).symm⟩
  rw [hentries, List.map_reverse, hnames]
  rfl

end InstructionSet

end CookingIsa
