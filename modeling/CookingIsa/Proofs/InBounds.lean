import Mathlib
import CookingIsa.Config.Reader
import CookingIsa.Proofs.ChefTable
import CookingIsa.Proofs.Effect
import CookingIsa.Proofs.RoundTrip
import CookingIsa.Proofs.Run

/-!
# Nothing is accessed that is not there

An operation accesses operands, registers and bytes without asking whether they exist. A decoded
word has as many operands as its operation takes, each of them a register that exists or an
immediate; a session is set up only with host call registers that exist; and the memory is accessed
only where a word has been located. So no step of any run ends out of bounds
(`create_and_run_inBounds`).
-/

namespace CookingIsa

/-- The access does not fail for want of what is accessed. -/
def InBounds {α : Type} (x : Except Stop α) : Prop := x ≠ .error .outOfBounds

namespace InBounds

variable {α β : Type}

theorem ok (a : α) : InBounds (.ok a) := by simp [InBounds]

theorem bind {x : Except Stop α} {f : α → Except Stop β} (hx : InBounds x)
    (hf : ∀ a, x = .ok a → InBounds (f a)) : InBounds (x >>= f) := by
  rcases x with e | a
  · exact fun h => hx (by simpa [Bind.bind, Except.bind] using h)
  · exact hf a rfl

theorem mapError_fault (x : Except Fault α) : InBounds (x.mapError .fault) := by
  rcases x with e | a <;> simp [InBounds, Except.mapError]

theorem mapError_ofMemory {x : Except MemoryError α} (hx : x ≠ .error .outOfBounds)
    (fault : AddressError → Fault) : InBounds (x.mapError (.ofMemory fault)) := by
  rcases x with (e | _) | a
  · simp [InBounds, Except.mapError, Stop.ofMemory]
  · exact absurd rfl hx
  · simp [InBounds, Except.mapError]

theorem stopped {κ : Type} {x : Except Stop α} (hx : InBounds x) {s : Stop} (hs : x = .error s)
    (b : Basket) (m : Machine κ) : InBounds (Outcome.stopped s b m).result := by
  rw [hs] at hx
  simpa [Outcome.stopped, InBounds] using hx

end InBounds

namespace Memory

theorem load_ne_outOfBounds (m : Memory) (addr : Word) : m.load addr ≠ .error .outOfBounds := by
  unfold load
  rcases hl : m.locate addr with e | offset
  · simp
  · simp [readWord?, locate_add_le hl]

theorem store_ne_outOfBounds (m : Memory) (addr w : Word) :
    m.store addr w ≠ .error .outOfBounds := by
  unfold store
  rcases hl : m.locate addr with e | offset
  · simp
  · simp [writeWord?, locate_add_le hl]

end Memory

namespace RegisterFile

theorem exists_read (r : RegisterFile) {n : Nat} (hn : n < Register.count) :
    ∃ w, r.read n = .ok w := by
  obtain ⟨w, hw⟩ := Option.isSome_iff_exists.1 (r.isSome_get? hn)
  exact ⟨w, by simp [read, hw]⟩

theorem exists_set? (r : RegisterFile) {n : Nat} (hn : n < Register.count) (w : Word) :
    ∃ r', r.set? n w = some r' := by
  unfold set?
  split_ifs
  · exact ⟨_, rfl⟩
  · exact ⟨_, rfl⟩

end RegisterFile

/-- The operands are those that the operation takes: as many, each within its range. -/
structure Operation.Takes (op : Operation) (o : Operands) : Prop where
  length_eq : o.length = op.arity
  admits : ∀ j value, o.get? j = some value → op.layout.Admits j value

namespace Operation.Takes

variable {op : Operation} {o : Operands} (h : op.Takes o) {j : Nat}

include h

theorem exists_get? (hj : j < op.arity) : ∃ value, o.get? j = some value :=
  ⟨_, List.getElem?_eq_getElem (by rw [← h.length_eq] at hj; exact hj)⟩

theorem exists_register (hj : j < op.arity) (hreg : ¬ op.layout.IsImmediate j) :
    ∃ n, o.register j = .ok n ∧ n < Register.count := by
  obtain ⟨value, hvalue⟩ := h.exists_get? hj
  have hadm := h.admits j value hvalue
  rw [Layout.Admits, if_neg hreg] at hadm
  refine ⟨value.toNat, ?_, by omega⟩
  obtain ⟨n, rfl⟩ := Int.eq_ofNat_of_zero_le hadm.1
  have hcast : Int.toNat? (n : Int) = some n := rfl
  simp [Operands.register, hvalue, hcast]

theorem immediate_inBounds (hj : j < op.arity) : InBounds (o.immediate j) := by
  obtain ⟨value, hvalue⟩ := h.exists_get? hj
  simp [Operands.immediate, hvalue, InBounds]

theorem source_inBounds (r : RegisterFile) (hj : j < op.arity) (hreg : ¬ op.layout.IsImmediate j) :
    InBounds (r.source o j) := by
  obtain ⟨n, hn, hlt⟩ := h.exists_register hj hreg
  obtain ⟨w, hw⟩ := r.exists_read hlt
  simp [RegisterFile.source, hn, hw, bind, Except.bind, InBounds]

theorem assign_inBounds (r : RegisterFile) (w : Word) (hpos : 0 < op.arity) :
    InBounds (r.assign o w) := by
  obtain ⟨n, hn, hlt⟩ := h.exists_register hpos (op.layout.not_isImmediate_of_lt (by decide))
  obtain ⟨r', hset⟩ := r.exists_set? hlt w
  simp [RegisterFile.assign, hn, hset, bind, Except.bind, InBounds]

theorem effectiveAddress_inBounds (r : RegisterFile) (harity : op.arity = 3) :
    InBounds (r.effectiveAddress o) := by
  have hreg := op.layout.not_isImmediate_of_lt (show 1 < 2 by decide)
  refine (h.source_inBounds r (by omega) hreg).bind fun a _ => ?_
  exact (h.immediate_inBounds (by omega)).bind fun v _ => .ok _

theorem sources_inBounds {α : Type} {f : Word → Word → Except Stop α} (r : RegisterFile)
    (harity : op.arity = 3) (hlayout : op.layout = .threeRegister)
    (hf : ∀ a b, InBounds (f a b)) : InBounds (do f (← r.source o 1) (← r.source o 2)) := by
  have hreg := op.layout.not_isImmediate_of_lt (show 1 < 2 by decide)
  refine (h.source_inBounds r (by omega) hreg).bind fun a _ => ?_
  have hreg₂ : ¬ op.layout.IsImmediate 2 := by simp [hlayout, Layout.IsImmediate]
  exact (h.source_inBounds r (by omega) hreg₂).bind fun b _ => hf a b

end Operation.Takes

theorem Computation.value_inBounds (c : Computation) {o : Operands}
    (h : (Operation.assign c).Takes o) (mode : ArithmeticMode) (r : RegisterFile) (m : Memory) :
    InBounds (c.value mode r m o) := by
  cases c with
  | addImmediate =>
    refine (h.source_inBounds r (by decide) (by decide)).bind fun a _ => ?_
    exact (h.immediate_inBounds (by decide)).bind fun v _ => .mapError_fault _
  | add | subtract | multiply | divide =>
    exact h.sources_inBounds r rfl rfl fun _ _ => .mapError_fault _
  | average => exact h.sources_inBounds r rfl rfl fun _ _ => .ok _
  | double => exact (h.source_inBounds r (by decide) (by decide)).bind fun a _ => .mapError_fault _
  | halve => exact (h.source_inBounds r (by decide) (by decide)).bind fun a _ => .ok _
  | zero => exact .ok _
  | move => exact h.source_inBounds r (by decide) (by decide)
  | loadWord =>
    refine (h.effectiveAddress_inBounds r rfl).bind fun addr _ => ?_
    exact .mapError_ofMemory (m.load_ne_outOfBounds addr) _

namespace Operation

variable {κ : Type} {o : Operands} (b : Basket) (m : Machine κ)

theorem runAssign_inBounds {c : Computation} (h : (assign c).Takes o) (mode : ArithmeticMode) :
    InBounds (runAssign c mode o b m).result := by
  have hpos : 0 < (assign c).arity := by cases c <;> decide
  have hvalue := (c.value_inBounds h mode m.registers m.memory).bind fun w _ =>
    h.assign_inBounds m.registers w hpos
  unfold runAssign
  split
  · rename_i s hs
    exact hvalue.stopped hs b m
  · exact .ok _

theorem runBranchEqual_inBounds (h : branchEqual.Takes o) :
    InBounds (runBranchEqual o b m).result := by
  have hdecision := (h.source_inBounds m.registers (j := 0) (by decide) (by decide)).bind fun x _ =>
    (h.source_inBounds m.registers (j := 1) (by decide) (by decide)).bind
      (f := fun y => if x = y then return some (← o.immediate 2) else return none) fun y _ => by
        split_ifs
        · exact (h.immediate_inBounds (by decide)).bind fun v _ => .ok _
        · exact .ok _
  simp only [runBranchEqual]
  split
  · rename_i s hs
    exact hdecision.stopped hs b m
  · exact .ok _
  · exact .ok _

theorem runStoreWord_inBounds (h : storeWord.Takes o) : InBounds (runStoreWord o b m).result := by
  have hstored := (h.effectiveAddress_inBounds m.registers rfl).bind fun addr _ =>
    (h.source_inBounds m.registers (j := 0) (by decide) (by decide)).bind fun w _ =>
      .mapError_ofMemory (m.memory.store_ne_outOfBounds addr w) .store
  simp only [runStoreWord]
  split
  · rename_i s hs
    exact hstored.stopped hs b m
  · exact .ok _

variable [Console κ]

theorem writing_inBounds (line : String) : InBounds (Outcome.writing line b m).result := by
  unfold Outcome.writing
  split
  · simp [InBounds]
  · exact .ok _

theorem runHostCall_inBounds {policy : Policy} (hs : policy.selectorRegister < Register.count)
    (ha : policy.argumentRegister < Register.count) :
    InBounds (runHostCall policy b m).result := by
  obtain ⟨selector, hselector⟩ := m.registers.exists_read hs
  obtain ⟨argument, hargument⟩ := m.registers.exists_read ha
  simp only [runHostCall, hselector, hargument]
  split_ifs
  · exact writing_inBounds b m _
  · exact writing_inBounds b m _
  · exact .ok _

theorem runCollect_inBounds (i : Ingredient) : InBounds (runCollect i b m).result := by
  unfold runCollect
  split
  · simp [InBounds]
  · exact .ok _

theorem runPresent_inBounds (policy : Policy) : InBounds (runPresent policy b m).result := by
  unfold runPresent
  split
  · simp [Outcome.stopped, InBounds]
  · exact writing_inBounds b m _

theorem run_inBounds (op : Operation) {policy : Policy}
    (hs : policy.selectorRegister < Register.count)
    (ha : policy.argumentRegister < Register.count) (h : op.Takes o) :
    InBounds (op.run policy o b m).result := by
  cases op with
  | assign c => exact runAssign_inBounds b m h policy.arithmetic
  | branchEqual => exact runBranchEqual_inBounds b m h
  | hostCall => exact runHostCall_inBounds b m hs ha
  | storeWord => exact runStoreWord_inBounds b m h
  | collect i => exact runCollect_inBounds b m i
  | present => exact runPresent_inBounds b m policy

end Operation

theorem InstructionSet.takes_of_decode? (s : InstructionSet) {w : Word} {d : Decoding}
    (hd : s.decode? w = some d) : d.instruction.operation.Takes d.operands := by
  obtain ⟨-, -, -, hops⟩ := s.decode?_eq_some_iff.1 hd
  rw [hops]
  exact ⟨d.instruction.length_operandsOf w, fun _ _ => d.instruction.admits_operandsOf w⟩

namespace Session

theorem create_eq_ok_iff (instructions : InstructionSet) (config : Config) (s : Session) :
    create instructions config = .ok s ↔
      (config.selectorRegister < Register.count ∧ config.argumentRegister < Register.count) ∧
        s = ⟨instructions, config.policy, config.traceInstructions, .empty⟩ := by
  rw [← Config.validate_eq_ok_iff]
  unfold create
  rcases config.validate with e | _
  · simp [bind, Except.bind]
  · simp [bind, Except.bind, pure, Except.pure, eq_comm]

theorem createChef_eq (config : Config) :
    createChef config = create ChefAssembly.complete config := by
  unfold createChef create
  rw [ChefAssembly.instructionSet_eq]
  rcases config.validate with e | _ <;> rfl

theorem exists_createChef_eq (config : Config) :
    ∃ instructions, createChef config = create instructions config :=
  ⟨_, createChef_eq config⟩

/-- The session that is set up for a configuration. -/
def fresh (instructions : InstructionSet) (config : Config) : Session :=
  ⟨instructions, config.policy, config.traceInstructions, .empty⟩

theorem create_eq_fresh (instructions : InstructionSet) {config : Config}
    (h : config.validate = .ok ()) : create instructions config = .ok (fresh instructions config) :=
  (create_eq_ok_iff _ _ _).2 ⟨Config.validate_eq_ok_iff.1 h, rfl⟩

/-- The registers that a host call reads exist. -/
def HostCallRegisters (s : Session) : Prop :=
  s.policy.selectorRegister < Register.count ∧ s.policy.argumentRegister < Register.count

variable {κ : Type} [Console κ]

theorem step_inBounds {s : Session} (hs : s.HostCallRegisters) (w : Word) (m : Machine κ) :
    (s.step w m).result ≠ .error .outOfBounds := by
  rcases hd : s.instructions.decode? w with _ | d
  · simp [step, hd, Step.noMatch]
  · have hrun := Operation.run_inBounds s.basket m d.instruction.operation hs.1 hs.2
      (s.instructions.takes_of_decode? hd)
    rw [(step_of_decode? hd m).1]
    rcases hr : (d.instruction.operation.run s.policy d.operands s.basket m).result with e | c
    · rcases e with f | _
      · simp [Except.mapError, StepError.ofStop]
      · exact absurd hr hrun
    · simp [Except.mapError]

theorem run_ne_outOfBounds {s : Session} (hs : s.HostCallRegisters) (m : Machine κ)
    (words : List Word) : ∀ done ∈ s.run m words, done.result ≠ .error .outOfBounds :=
  forall_mem_run (I := fun s _ => s.HostCallRegisters) (fun _ m w hs => step_inBounds hs w m)
    (fun _ _ _ hs => by rwa [HostCallRegisters, policy_after]) words hs

end Session

theorem Config.registers_of_ofJson {text : String} {config : Config}
    (h : Config.ofJson text = .ok config) :
    config.selectorRegister < Register.count ∧ config.argumentRegister < Register.count := by
  rw [← validate_eq_ok_iff]
  unfold ofJson at h
  rcases hread : Json.readRecord sections "struct Config" {} (Json.tokensOf text) with e | ⟨c, rest⟩
  · simp [hread, bind, Except.bind] at h
  · simp only [hread, bind, Except.bind] at h
    split_ifs at h
    rcases hv : c.validate with e | _ <;> rw [hv] at h
    · cases h
    · cases h
      exact hv

namespace Session

/-- A session is set up exactly if the host call registers exist, as they do in every configuration
that was read from a text; and no step of it, in any run on any machine, accesses an operand, a
register or a byte that is not there. -/
theorem create_and_run_inBounds (offers : List Instruction) (config : Config) :
    ((∃ s, create (.ofOffers offers) config = .ok s) ↔
        config.selectorRegister < Register.count ∧ config.argumentRegister < Register.count) ∧
      ((∃ s, createChef config = .ok s) ↔
        config.selectorRegister < Register.count ∧ config.argumentRegister < Register.count) ∧
      (∀ text, Config.ofJson text = .ok config →
        (∃ s, create (.ofOffers offers) config = .ok s) ∧ ∃ s, createChef config = .ok s) ∧
      ∀ s, create (.ofOffers offers) config = .ok s ∨ createChef config = .ok s →
        ∀ {κ : Type} [Console κ] (m : Machine κ) (words : List Word),
          ∀ done ∈ s.run m words, done.result ≠ .error .outOfBounds := by
  obtain ⟨chef, hchef⟩ := exists_createChef_eq config
  have hiff : ∀ instructions, (∃ s, create instructions config = .ok s) ↔
      config.selectorRegister < Register.count ∧ config.argumentRegister < Register.count := by
    intro instructions
    simp only [create_eq_ok_iff, exists_and_left, exists_eq, and_true]
  rw [hchef]
  refine ⟨hiff _, hiff _, fun text h => ?_, fun s hs κ _ m words => ?_⟩
  · have hregisters := Config.registers_of_ofJson h
    exact ⟨(hiff _).2 hregisters, (hiff _).2 hregisters⟩
  · have hregisters : s.HostCallRegisters := by
      rcases hs with hs | hs <;>
      · obtain ⟨hregisters, rfl⟩ := (create_eq_ok_iff _ _ _).1 hs
        exact hregisters
    exact run_ne_outOfBounds hregisters m words

/-- A run over a memory that runs past the last address: a word is stored in its first bytes and
loaded again, the last register is added to itself, a host call is made, and a word matches
nothing. -/
theorem create_and_run_inBounds_default :
    Config.ofJson "{}" = .ok {} ∧
      ∃ s, create (.ofOffers ChefAssembly.instructions) {} = .ok s ∧
        ∀ done ∈ s.run (Machine.fresh 0xfffffffc#32 7 (ScriptedConsole.ofInput []))
          [0xac1ffffc#32, 0x8c1ffffc#32, 0x03fff820#32, 0x0000000c#32, 0xffffffff#32],
          done.result ≠ .error .outOfBounds := by
  obtain ⟨-, -, hjson, hrun⟩ := create_and_run_inBounds ChefAssembly.instructions {}
  have hread : Config.ofJson "{}" = .ok {} := by decide +kernel
  obtain ⟨s, hs⟩ := (hjson _ hread).1
  exact ⟨hread, s, hs, hrun s (.inl hs) _ _⟩

end Session

end CookingIsa
