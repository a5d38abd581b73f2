import Mathlib
import CookingIsa.Proofs.Effect
import CookingIsa.Proofs.Registration
import CookingIsa.Proofs.Run

/-!
# What the machine has recorded

A step adds to the branches the target that it ends with, and to the faults a record of the fault
that it ends with, if any. So after a run the machine has recorded every branch and every fault
exactly once, in the order of the steps (`records_of_run`).
-/

namespace CookingIsa

def Control.target? : Control → Option Int
  | next => none
  | branch target => some target

/-- The target of the branch that a step ended with. -/
def Step.branch? {κ : Type} (done : Step κ) : Option Int := done.result.toOption.bind Control.target?

/-- The fault that a step ended with. -/
def Step.fault? {κ : Type} (done : Step κ) : Option Fault :=
  match done.result with
  | .error (.fault f) => some f
  | _ => none

/-- A record tells of a fault that a word raised, and names the one instruction that the word
matches. -/
structure FaultRecord.TellsOf (r : FaultRecord) (instructions : InstructionSet) (w : Word)
    (f : Fault) : Prop where
  kind_eq : r.kind = f.kind
  word_eq : r.word = w
  message_eq : r.message = f.message
  mnemonic_eq : ∃ i ∈ instructions.entries, r.mnemonic = i.name ∧
    ∀ j ∈ instructions.entries, j.pattern.Matches w ↔ j = i

theorem Decoding.record_tellsOf {instructions : InstructionSet} {w : Word} {d : Decoding}
    (hd : instructions.decode? w = some d) (f : Fault) :
    (d.record f).TellsOf instructions w f := by
  obtain ⟨hi, hw, hword, -⟩ := instructions.decode?_eq_some_iff.1 hd
  refine ⟨rfl, hword, rfl, _, hi, rfl, fun j hj => ⟨fun hjw => ?_, fun h => h ▸ hw⟩⟩
  have hlookup := instructions.lookup?_eq_some_iff.2 ⟨hj, hjw⟩
  rw [instructions.lookup?_eq_some_iff.2 ⟨hi, hw⟩, Option.some.injEq] at hlookup
  exact hlookup.symm

theorem toOption_mapError {ε ε' α : Type} {f : ε → ε'} (x : Except ε α) :
    (x.mapError f).toOption = x.toOption := by
  rcases x with e | a <;> rfl

theorem Machine.faults_note {κ : Type} {m : Machine κ} {d : Decoding} {done : Step κ}
    {result : Except Stop Control} (h : done.result = result.mapError .ofStop) :
    (m.note d result).faults = m.faults ++ done.fault?.toList.map d.record := by
  unfold Step.fault?
  rw [h]
  rcases result with (f | _) | c
  · rfl
  · exact (List.append_nil _).symm
  · exact (List.append_nil _).symm

namespace Operation.Effect

variable {κ : Type} [Console κ] {policy : Policy} {op : Operation} {o : Operands} {b : Basket}
  {m : Machine κ} {outcome : Outcome κ}

theorem faults_eq (h : Effect policy o b m op outcome) : outcome.machine.faults = m.faults := by
  cases h <;> rfl

theorem branches_eq (h : Effect policy o b m op outcome) : outcome.machine.branches =
    m.branches ++ (outcome.result.toOption.bind Control.target?).toList := by
  cases h with
  | branched => rfl
  | _ => exact (List.append_nil _).symm

end Operation.Effect

namespace Session

variable {κ : Type} [Console κ]

theorem branches_step (s : Session) (w : Word) (m : Machine κ) :
    (s.step w m).machine.branches = m.branches ++ (s.step w m).branch?.toList := by
  obtain ⟨-, hstep⟩ | ⟨d, o, -, heffect, hresult, -, hmachine⟩ := s.step_cases w m
  · rw [hstep]
    exact (List.append_nil _).symm
  · rw [hmachine, Machine.branches_note, heffect.branches_eq, Step.branch?, hresult,
      toOption_mapError]

theorem faults_of_decode? {s : Session} {w : Word} {d : Decoding}
    (hd : s.instructions.decode? w = some d) (m : Machine κ) :
    (s.step w m).machine.faults = m.faults ++ (s.step w m).fault?.toList.map d.record := by
  obtain ⟨hresult, -, hmachine⟩ := step_of_decode? hd m
  rw [hmachine, Machine.faults_note hresult, (Operation.effect_run _).faults_eq]

theorem faults_step (s : Session) (w : Word) (m : Machine κ) :
    ∃ records, (s.step w m).machine.faults = m.faults ++ records ∧
      List.Forall₂ (fun f r => r.TellsOf s.instructions w f) (s.step w m).fault?.toList
        records := by
  rcases hd : s.instructions.decode? w with _ | d
  · refine ⟨[], ?_, ?_⟩
    · simp [step, hd, Step.noMatch]
    · simp [step, hd, Step.noMatch, Step.fault?]
  · refine ⟨_, faults_of_decode? hd m, ?_⟩
    exact List.forall₂_map_right_iff.2
      (List.forall₂_same.2 fun f _ => Decoding.record_tellsOf hd f)

/-- The words of a run that ended in a fault, each with its fault. -/
def raised (s : Session) (m : Machine κ) (words : List Word) : List (Word × Fault) :=
  (words.zip (s.run m words)).filterMap fun (w, done) => done.fault?.map (w, ·)

theorem raised_cons (s : Session) (m : Machine κ) (w : Word) (words : List Word) :
    s.raised m (w :: words) = (s.step w m).fault?.toList.map (w, ·) ++
      (s.after (s.step w m)).raised (s.step w m).machine words := by
  unfold raised
  rcases hf : (s.step w m).fault? with _ | f <;> simp [run, hf]

theorem branches_machineAfter :
    ∀ (words : List Word) (s : Session) (m : Machine κ), (s.machineAfter m words).branches =
      m.branches ++ (s.run m words).filterMap Step.branch?
  | [], _, _ => by simp [machineAfter, run]
  | w :: words, s, m => by
    simp only [machineAfter, run]
    rw [branches_machineAfter words, branches_step, List.append_assoc]
    rcases hb : (s.step w m).branch? with _ | target <;> simp [hb]

theorem faults_machineAfter :
    ∀ (words : List Word) (s : Session) (m : Machine κ),
      ∃ records, (s.machineAfter m words).faults = m.faults ++ records ∧
        List.Forall₂ (fun (e : Word × Fault) r => r.TellsOf s.instructions e.1 e.2)
          (s.raised m words) records
  | [], _, m => ⟨[], by simp [machineAfter], by simp [raised]⟩
  | w :: words, s, m => by
    obtain ⟨first, hfirst, htells⟩ := s.faults_step w m
    obtain ⟨rest, hrest, htail⟩ :=
      faults_machineAfter words (s.after (s.step w m)) (s.step w m).machine
    refine ⟨first ++ rest, ?_, ?_⟩
    · simp only [machineAfter]
      rw [hrest, hfirst, List.append_assoc]
    · rw [raised_cons]
      exact List.rel_append (List.forall₂_map_left_iff.2 htells) htail

/-- After a run the machine has recorded the targets of the steps that ended with a branch and the
faults of those that ended with a fault, each once and in their order, and nothing of a word that
matched nothing. -/
theorem records_of_run (s : Session) (m : Machine κ) (words : List Word) :
    (s.machineAfter m words).branches = m.branches ++ (s.run m words).filterMap Step.branch? ∧
      ∃ records, (s.machineAfter m words).faults = m.faults ++ records ∧
        List.Forall₂ (fun (e : Word × Fault) r => r.TellsOf s.instructions e.1 e.2)
          (s.raised m words) records :=
  ⟨branches_machineAfter words s m, faults_machineAfter words s m⟩

end Session

end CookingIsa
