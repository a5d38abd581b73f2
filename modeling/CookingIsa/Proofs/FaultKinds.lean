import Mathlib
import CookingIsa.Proofs.Effect

/-!
# Which faults an operation raises

Each operation raises faults of a few kinds, and operations that share none can be told apart by a
fault alone (`kind_of_step`). An access to a register or an operand is never a fault.
-/

namespace CookingIsa

def Computation.faultKinds : Computation → List FaultKind
  | addImmediate | add | subtract | multiply | double => [.arithmeticOverflow]
  | divide => [.divideByZero, .arithmeticOverflow]
  | average | halve | zero | move => []
  | loadWord => [.addressLoad]

/-- The kinds of faults that an operation can raise. -/
def Operation.faultKinds : Operation → List FaultKind
  | assign c => c.faultKinds
  | branchEqual => []
  | hostCall => [.console]
  | storeWord => [.addressStore]
  | collect _ => [.console]
  | present => [.unsetSlot, .console]

theorem Operation.eq_present_of_unsetSlot {op : Operation} (h : .unsetSlot ∈ op.faultKinds) :
    op = present := by
  cases op with
  | assign c => cases c <;> simp [faultKinds, Computation.faultKinds] at h
  | present => rfl
  | branchEqual | hostCall | storeWord | collect => simp [faultKinds] at h

/-- If this is a fault, then of one of the kinds. -/
def FaultsAmong {α : Type} (kinds : List FaultKind) (x : Except Stop α) : Prop :=
  ∀ f, x = .error (.fault f) → f.kind ∈ kinds

namespace FaultsAmong

variable {α β : Type} {kinds : List FaultKind}

theorem ok (a : α) : FaultsAmong kinds (.ok a) := by
  intro f h
  cases h

theorem bind {x : Except Stop α} {f : α → Except Stop β} (hx : FaultsAmong kinds x)
    (hf : ∀ a, FaultsAmong kinds (f a)) : FaultsAmong kinds (x >>= f) := by
  intro e he
  rcases x with s | a
  · exact hx e (by simpa [Bind.bind, Except.bind] using he)
  · exact hf a e he

theorem mapError_fault {x : Except Fault α} (h : ∀ f, x = .error f → f.kind ∈ kinds) :
    FaultsAmong kinds (x.mapError .fault) := by
  intro f hf
  rcases x with e | a
  · simp only [Except.mapError, Except.error.injEq, Stop.fault.injEq] at hf
    exact h f (by rw [hf])
  · cases hf

theorem mapError_ofMemory {x : Except MemoryError α} {fault : AddressError → Fault}
    (h : ∀ e, (fault e).kind ∈ kinds) : FaultsAmong kinds (x.mapError (.ofMemory fault)) := by
  intro f hf
  rcases x with (e | _) | a
  · simp only [Except.mapError, Stop.ofMemory, Except.error.injEq, Stop.fault.injEq] at hf
    exact hf ▸ h e
  · simp [Except.mapError, Stop.ofMemory] at hf
  · cases hf

theorem immediate (o : Operands) (i : Nat) : FaultsAmong kinds (o.immediate i) := by
  intro f h
  unfold Operands.immediate at h
  split at h <;> simp at h

theorem register (o : Operands) (i : Nat) : FaultsAmong kinds (o.register i) := by
  intro f h
  unfold Operands.register at h
  split at h <;> simp at h

theorem source (r : RegisterFile) (o : Operands) (i : Nat) : FaultsAmong kinds (r.source o i) := by
  refine (register o i).bind fun n => ?_
  intro f h
  unfold RegisterFile.read at h
  split at h <;> simp at h

theorem assign (r : RegisterFile) (o : Operands) (w : Word) : FaultsAmong kinds (r.assign o w) := by
  refine (register o 0).bind fun n => ?_
  intro f h
  split at h <;> simp at h

theorem effectiveAddress (r : RegisterFile) (o : Operands) :
    FaultsAmong kinds (r.effectiveAddress o) :=
  (source r o 1).bind fun _ => (immediate o 2).bind fun _ => .ok _

end FaultsAmong

namespace Arithmetic

variable {mode : ArithmeticMode} {a b : Word} {overflows : Bool} {f : Fault}

theorem eq_of_resolve (h : resolve mode overflows a = .error f) : f = .overflow := by
  unfold resolve at h
  split_ifs at h
  cases h
  rfl

theorem eq_of_divide (h : divide mode a b = .error f) : f = .divideByZero ∨ f = .overflow := by
  unfold divide at h
  split_ifs at h
  · cases h
    exact .inl rfl
  · exact .inr (eq_of_resolve h)

end Arithmetic

theorem Computation.faults_value (c : Computation) (mode : ArithmeticMode) (r : RegisterFile)
    (m : Memory) (o : Operands) : FaultsAmong c.faultKinds (c.value mode r m o) := by
  have hresolve : ∀ {mode : ArithmeticMode} {overflows : Bool} {w : Word} (f : Fault),
      Arithmetic.resolve mode overflows w = .error f → f.kind ∈ [FaultKind.arithmeticOverflow] := by
    intro mode overflows w f h
    rw [Arithmetic.eq_of_resolve h]
    decide
  cases c with
  | addImmediate =>
    refine (FaultsAmong.source r o 1).bind fun a => ?_
    exact (FaultsAmong.immediate o 2).bind fun v => .mapError_fault hresolve
  | add | subtract | multiply =>
    refine (FaultsAmong.source r o 1).bind fun a => ?_
    exact (FaultsAmong.source r o 2).bind fun b => .mapError_fault hresolve
  | divide =>
    refine (FaultsAmong.source r o 1).bind fun a => ?_
    refine (FaultsAmong.source r o 2).bind fun b => .mapError_fault fun f h => ?_
    rcases Arithmetic.eq_of_divide h with rfl | rfl <;> decide
  | average =>
    refine (FaultsAmong.source r o 1).bind fun a => ?_
    exact (FaultsAmong.source r o 2).bind fun b => .ok _
  | double => exact (FaultsAmong.source r o 0).bind fun a => .mapError_fault hresolve
  | halve => exact (FaultsAmong.source r o 0).bind fun a => .ok _
  | zero => exact .ok _
  | move => exact .source r o 1
  | loadWord =>
    refine (FaultsAmong.effectiveAddress r o).bind fun addr => .mapError_ofMemory fun e => ?_
    simp [faultKinds, Fault.kind]

namespace Operation

variable {κ : Type} {kinds : List FaultKind} {o : Operands} (b : Basket) (m : Machine κ)

theorem faults_stopped {α : Type} {x : Except Stop α} {s : Stop} (hx : FaultsAmong kinds x)
    (hs : x = .error s) : FaultsAmong kinds (Outcome.stopped s b m).result := by
  rw [hs] at hx
  simpa [FaultsAmong, Outcome.stopped] using hx

theorem faults_runAssign (c : Computation) (mode : ArithmeticMode) :
    FaultsAmong c.faultKinds (runAssign c mode o b m).result := by
  unfold runAssign
  split
  · rename_i s hs
    exact faults_stopped b m ((c.faults_value mode m.registers m.memory o).bind fun w =>
      .assign m.registers o w) hs
  · exact .ok _

theorem faults_runBranchEqual : FaultsAmong [] (runBranchEqual o b m).result := by
  simp only [runBranchEqual]
  split
  · rename_i s hs
    refine faults_stopped b m ((FaultsAmong.source m.registers o 0).bind fun x =>
      (FaultsAmong.source m.registers o 1).bind fun y => ?_) hs
    split_ifs
    · exact (FaultsAmong.immediate o 2).bind fun v => .ok _
    · exact .ok _
  · exact .ok _
  · exact .ok _

theorem faults_runStoreWord : FaultsAmong [.addressStore] (runStoreWord o b m).result := by
  simp only [runStoreWord]
  split
  · rename_i s hs
    refine faults_stopped b m ((FaultsAmong.effectiveAddress m.registers o).bind fun addr =>
      (FaultsAmong.source m.registers o 0).bind fun w => .mapError_ofMemory ?_) hs
    simp [Fault.kind]
  · exact .ok _

variable [Console κ]

theorem faults_writing (h : .console ∈ kinds) (line : String) :
    FaultsAmong kinds (Outcome.writing line b m).result := by
  unfold Outcome.writing
  split
  · intro f hf
    simp only [Except.error.injEq, Stop.fault.injEq] at hf
    exact hf ▸ h
  · exact .ok _

theorem faults_run (op : Operation) (policy : Policy) (o : Operands) :
    FaultsAmong op.faultKinds (op.run policy o b m).result := by
  cases op with
  | assign c => exact faults_runAssign b m c policy.arithmetic
  | branchEqual => exact faults_runBranchEqual b m
  | storeWord => exact faults_runStoreWord b m
  | hostCall =>
    simp only [run, runHostCall]
    split
    · split_ifs
      · exact faults_writing b m (by decide) _
      · exact faults_writing b m (by decide) _
      · exact .ok _
    · simp [FaultsAmong, Outcome.stopped]
  | collect i =>
    simp only [run, runCollect]
    split
    · simp [FaultsAmong, faultKinds, Fault.kind]
    · exact .ok _
  | present =>
    simp only [run, runPresent]
    split
    · simp [FaultsAmong, Outcome.stopped, faultKinds, Fault.kind]
    · exact faults_writing b m (by decide) _

end Operation

namespace Session

variable {κ : Type} [Console κ]

theorem kind_of_step {s : Session} {w : Word} {m : Machine κ} {f : Fault}
    (h : (s.step w m).result = .error (.fault f)) :
    ∃ d, s.instructions.decode? w = some d ∧ f.kind ∈ d.instruction.operation.faultKinds := by
  rcases hd : s.instructions.decode? w with _ | d
  · simp [step, hd, Step.noMatch] at h
  · refine ⟨d, rfl, ?_⟩
    have hfaults := Operation.faults_run s.basket m d.instruction.operation s.policy d.operands
    rw [(step_of_decode? hd m).1] at h
    rcases hr : (d.instruction.operation.run s.policy d.operands s.basket m).result with
      (f' | _) | c <;> rw [hr] at h hfaults
    · simp only [Except.mapError, StepError.ofStop, Except.error.injEq, StepError.fault.injEq] at h
      exact hfaults f (by rw [h])
    · simp [Except.mapError, StepError.ofStop] at h
    · cases h

end Session

end CookingIsa
