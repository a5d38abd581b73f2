import Mathlib
import CookingIsa.Proofs.LatestStore
import CookingIsa.Proofs.Records
import CookingIsa.Proofs.WordMap

/-!
# Independent instructions commute

An instruction on data reads some registers and perhaps a word of memory, and then changes one
register or one word of memory, or ends in a fault. So its step is told by that change alone
(`step_of_onData`). If another instruction changes nothing that it reads, its change is the same
before and after the other (`change_settle`), and changes of different places can be made in either
order (`put_comm`). Hence two such instructions can be swapped (`run_swap`).
-/

namespace CookingIsa

/-! ## What an instruction reads and writes -/

/-- The operands that name the registers from which a value is computed. -/
def Computation.sources : Computation → List Nat
  | addImmediate | move | loadWord => [1]
  | add | subtract | multiply | divide | average => [1, 2]
  | double | halve => [0]
  | zero => []

/-- The operands that name the registers that an operation reads. -/
def Operation.sources : Operation → List Nat
  | assign c => c.sources
  | branchEqual | storeWord => [0, 1]
  | _ => []

namespace Decoding

variable (d e : Decoding)

/-- The instruction computes the value of a register or stores one. -/
def OnData : Prop :=
  (∃ c, d.instruction.operation = .assign c) ∨ d.instruction.operation = .storeWord

def Stores : Prop := d.instruction.operation = .storeWord

def Loads : Prop := d.instruction.operation = .assign .loadWord

def Reads (n : Nat) : Prop :=
  ∃ i ∈ d.instruction.operation.sources, d.operands.get? i = some (n : Int)

def Writes (n : Nat) : Prop :=
  (∃ c, d.instruction.operation = .assign c) ∧ d.operands.get? 0 = some (n : Int)

/-- What the one writes, the other does not touch: no register but register 0, and no word of
memory. -/
structure Unaffected (r : RegisterFile) : Prop where
  registers : ∀ n, n ≠ 0 → d.Writes n → ¬ e.Reads n ∧ ¬ e.Writes n
  memory : d.Stores → e.Stores ∨ e.Loads → ∀ a b, r.Addresses d.operands a →
    r.Addresses e.operands b → a ≠ b

/-- Two instructions that do not get in each other's way, given the registers at the start. -/
structure Independent (r : RegisterFile) : Prop where
  left : d.Unaffected e r
  right : e.Unaffected d r

end Decoding

/-! ## Changes -/

/-- The one thing that an instruction on data changes. -/
inductive Change where
  | register (n : Nat) (w : Word)
  | word (addr w : Word)

/-- The changes are of different places, or write to register 0. -/
def Change.Apart : Change → Change → Prop
  | register k _, register n _ => k = n → k = 0
  | word a _, word b _ => a ≠ b
  | _, _ => True

namespace RegisterFile

variable {r r' : RegisterFile} {o : Operands}

theorem effectiveAddress_congr (h : r'.source o 1 = r.source o 1) :
    r'.effectiveAddress o = r.effectiveAddress o := by
  simp only [effectiveAddress, h]

def put (r : RegisterFile) (n : Nat) (w : Word) : RegisterFile := (r.set? n w).getD r

theorem get?_put_ne {k n : Nat} (h : n ≠ 0 → k ≠ n) (w : Word) : (r.put n w).get? k = r.get? k := by
  unfold put
  rcases hset : r.set? n w with _ | r'
  · rfl
  · rw [Option.getD_some, get?_of_set? hset, if_neg]
    rintro ⟨hk, hn⟩
    exact h hn hk

theorem put_comm {k n : Nat} (h : k = n → k = 0) (v w : Word) :
    (r.put k v).put n w = (r.put n w).put k v := by
  by_cases hk : k = 0
  · simp [put, set?, hk]
  by_cases hn : n = 0
  · simp [put, set?, hn]
  have hne : k ≠ n := fun e => hk (h e)
  by_cases hklt : k < Register.count
  · by_cases hnlt : n < Register.count
    · simp [put, set?, hk, hn, hklt, hnlt, Vector.set_comm _ _ hne]
    · simp [put, set?, hk, hn, hklt, hnlt]
  · by_cases hnlt : n < Register.count <;> simp [put, set?, hk, hn, hklt, hnlt]

end RegisterFile

namespace Memory

variable {m : Memory} {addr w a b v : Word} {offset : Nat}

theorem next_store_of_error {e : AddressError} (h : m.locate addr = .error e) (w : Word) :
    m.next (.store addr w) = m := by
  simp [next, store, h]

theorem next_store_of_ok (h : m.locate addr = .ok offset) (w : Word) :
    m.next (.store addr w) = { m with bytes := fun i =>
      if offset ≤ i ∧ i < offset + 4 then w.extractLsb' (8 * (i - offset)) 8 else m.bytes i } := by
  simp [next, store, h, writeWord?, locate_add_le h]

@[simp] theorem locate_next_store (m : Memory) (a v addr : Word) :
    (m.next (.store a v)).locate addr = m.locate addr := by
  rcases h : m.locate a with e | offset
  · rw [next_store_of_error h]
  · rw [next_store_of_ok h]
    rfl

/-- The words at two addresses that differ have no byte in common. -/
theorem apart_of_locate (h : a ≠ b) {i j : Nat} (ha : m.locate a = .ok i)
    (hb : m.locate b = .ok j) : i + 4 ≤ j ∨ j + 4 ≤ i := by
  obtain ⟨-, hi⟩ := locate_eq_ok_iff.1 ha
  obtain ⟨-, hj⟩ := locate_eq_ok_iff.1 hb
  have hne : a.toNat ≠ b.toNat := fun e => h (BitVec.eq_of_toNat_eq e)
  have := mod_four_of_locate ha
  have := mod_four_of_locate hb
  omega

theorem next_store_comm (h : a ≠ b) (v w : Word) :
    (m.next (.store a v)).next (.store b w) = (m.next (.store b w)).next (.store a v) := by
  have ha' := m.locate_next_store b w a
  have hb' := m.locate_next_store a v b
  rcases ha : m.locate a with e | i <;> rw [ha] at ha'
  · rw [next_store_of_error ha, next_store_of_error ha']
  rcases hb : m.locate b with e | j <;> rw [hb] at hb'
  · rw [next_store_of_error hb, next_store_of_error hb']
  rw [next_store_of_ok ha', next_store_of_ok hb', next_store_of_ok ha, next_store_of_ok hb]
  congr 1
  funext k
  -- Byte `k` belongs to one of the two words at most.
  have hapart := apart_of_locate h ha hb
  by_cases hk : i ≤ k ∧ k < i + 4
  · simp [hk, show ¬ (j ≤ k ∧ k < j + 4) by omega]
  · simp [hk]

theorem load_next_store_ne (h : a ≠ b) (v : Word) :
    (m.next (.store a v)).load b = m.load b := by
  rcases hs : m.store a v with e | m'
  · simp [next, hs]
  obtain ⟨i, ha, hw⟩ := store_eq_ok_iff.1 hs
  have hlocate := m.locate_next_store a v b
  simp only [next, hs] at hlocate ⊢
  unfold load
  rw [hlocate]
  rcases hb : m.locate b with e | j
  · rfl
  · have hapart := apart_of_locate h ha hb
    simp only [readWord?_of_writeWord?_ne hw (show j + 4 ≤ i ∨ i + 4 ≤ j by omega)]

/-- Whether a store is done depends on the range of the memory alone. -/
theorem map_store_next {β : Type} (m : Memory) (a v b w : Word) (c : β) :
    ((m.next (.store a v)).store b w).map (fun _ => c) = (m.store b w).map fun _ => c := by
  have hlocate := m.locate_next_store a v b
  unfold store
  rcases hb : m.locate b with e | j
  · rw [hlocate, hb]
  · have hin := locate_add_le hb
    rw [hb] at hlocate
    simp [hlocate, writeWord?, hin, locate_add_le hlocate, Except.map]

end Memory

/-- What an instruction on data changes. Any other instruction is not asked for it. -/
def Decoding.change (d : Decoding) (mode : ArithmeticMode) (r : RegisterFile) (m : Memory) :
    Except Stop Change :=
  match d.instruction.operation with
  | .assign c => do
    let w ← c.value mode r m d.operands
    return .register (← d.operands.register 0) w
  | .storeWord => do
    let addr ← r.effectiveAddress d.operands
    let w ← r.source d.operands 0
    ((m.store addr w).map fun _ => Change.word addr w).mapError (.ofMemory .store)
  | _ => .error .outOfBounds

namespace Machine

variable {κ : Type} (m : Machine κ)

def put : Change → Machine κ
  | .register n w => { m with registers := m.registers.put n w }
  | .word addr w => { m with memory := m.memory.next (.store addr w) }

/-- The machine with the change made, or the fault recorded. -/
def settle (d : Decoding) : Except Stop Change → Machine κ
  | .ok c => m.put c
  | .error stop => m.note d (.error stop)

theorem put_comm {c c' : Change} (h : c.Apart c') : (m.put c).put c' = (m.put c').put c := by
  cases c with
  | register k v =>
    cases c' with
    | register n w => simp [put, RegisterFile.put_comm h]
    | word addr w => rfl
  | word a v =>
    cases c' with
    | register n w => rfl
    | word b w => simp [put, Memory.next_store_comm h]

/-- Changes of different places can be made in either order, and so can a change and the recording
of a fault; the order of two faults is kept in the record alone. -/
theorem settle_comm {m : Machine κ} {d e : Decoding} {x x' : Except Stop Change}
    (h : ∀ c c', x = .ok c → x' = .ok c' → c.Apart c') :
    (m.settle d x).settle e x' = { (m.settle e x').settle d x with
      faults := ((m.settle d x).settle e x').faults } := by
  rcases x with (f | _) | c
  · rcases x' with (f' | _) | (_ | _) <;> rfl
  · rcases x' with (f' | _) | (_ | _) <;> rfl
  · rcases x' with (f' | _) | c'
    · cases c <;> rfl
    · rfl
    · simp only [settle, m.put_comm (h c c' rfl rfl)]

end Machine

namespace Decoding

variable {d e : Decoding} {mode : ArithmeticMode} {r r' : RegisterFile} {m m' : Memory} {c : Change}

/-- An instruction changes a register that it writes or a word that it stores. -/
theorem of_change_eq_ok (h : d.change mode r m = .ok c) : match c with
    | .register n _ => d.Writes n
    | .word addr _ => d.Stores ∧ r.Addresses d.operands addr := by
  unfold change at h
  split at h
  · rename_i c' hop
    obtain ⟨w, -, h⟩ := bind_eq_ok_iff.1 h
    obtain ⟨n, hn, h⟩ := bind_eq_ok_iff.1 h
    cases h
    exact ⟨⟨c', hop⟩, Operands.register_eq_ok_iff.1 hn⟩
  · rename_i hop
    obtain ⟨addr, haddr, h⟩ := bind_eq_ok_iff.1 h
    obtain ⟨w, -, h⟩ := bind_eq_ok_iff.1 h
    rw [mapError_eq_ok_iff] at h
    rcases hs : m.store addr w with e | m' <;> rw [hs] at h
    · cases h
    · cases h
      exact ⟨hop, RegisterFile.effectiveAddress_eq_ok_iff.1 haddr⟩
  · cases h

theorem apart_of_independent (hind : d.Independent e r) {c' : Change}
    (hc : d.change mode r m = .ok c) (hc' : e.change mode r m = .ok c') : c.Apart c' := by
  have h := of_change_eq_ok hc
  have h' := of_change_eq_ok hc'
  cases c with
  | register k v =>
    cases c' with
    | register n w =>
      rintro rfl
      by_contra hk
      exact (hind.left.registers k hk h).2 h'
    | word => trivial
  | word a v =>
    cases c' with
    | register => trivial
    | word b w => exact hind.left.memory h.1 (.inl h'.1) a b h.2 h'.2

theorem source_congr (hr : ∀ n, d.Reads n → r'.get? n = r.get? n) {i : Nat}
    (hi : i ∈ d.instruction.operation.sources) :
    r'.source d.operands i = r.source d.operands i := by
  unfold RegisterFile.source
  rcases hn : d.operands.register i with s | n
  · rfl
  · have hget := hr n ⟨i, hi, Operands.register_eq_ok_iff.1 hn⟩
    simp [bind, Except.bind, RegisterFile.read, hget]

theorem value_congr {c : Computation} {o : Operands}
    (hr : ∀ i ∈ c.sources, r'.source o i = r.source o i)
    (hm : c = .loadWord → ∀ addr, r.effectiveAddress o = .ok addr → m'.load addr = m.load addr) :
    c.value mode r' m' o = c.value mode r m o := by
  cases c with
  | loadWord =>
    have hone := hr 1 (by simp [Computation.sources])
    have haddr := RegisterFile.effectiveAddress_congr hone
    simp only [Computation.value, haddr]
    rcases he : r.effectiveAddress o with s | addr
    · rfl
    · simp [bind, Except.bind, hm rfl addr he]
  | zero => rfl
  | addImmediate | move =>
    have hone := hr 1 (by simp [Computation.sources])
    simp only [Computation.value, hone]
  | double | halve =>
    have hzero := hr 0 (by simp [Computation.sources])
    simp only [Computation.value, hzero]
  | add | subtract | multiply | divide | average =>
    have hone := hr 1 (by simp [Computation.sources])
    have htwo := hr 2 (by simp [Computation.sources])
    simp only [Computation.value, hone, htwo]

theorem change_congr (hr : ∀ n, d.Reads n → r'.get? n = r.get? n)
    (hload : d.Loads → ∀ addr, r.effectiveAddress d.operands = .ok addr →
      m'.load addr = m.load addr)
    (hstore : ∀ addr w (c : Change),
      (m'.store addr w).map (fun _ => c) = (m.store addr w).map fun _ => c) :
    d.change mode r' m' = d.change mode r m := by
  have hsource := fun i => source_congr hr (i := i)
  unfold change
  split
  · rename_i c hop
    rw [hop] at hsource
    rw [value_congr hsource fun hc => hload (by rw [Loads, hop, hc])]
  · rename_i hop
    have hzero := hsource 0 (by simp [hop, Operation.sources])
    have hone := hsource 1 (by simp [hop, Operation.sources])
    have haddr := RegisterFile.effectiveAddress_congr hone
    simp only [haddr, hzero, hstore]
  · rfl

/-- What one instruction changes leaves as it is what the other is going to change. -/
theorem change_settle {κ : Type} {m : Machine κ} (h : d.Unaffected e m.registers) :
    let x := d.change mode m.registers m.memory
    e.change mode (m.settle d x).registers (m.settle d x).memory =
      e.change mode m.registers m.memory := by
  intro x
  rcases hx : x with s | c
  · simp [Machine.settle]
  have htouch := of_change_eq_ok hx
  cases c with
  | register n w =>
    refine change_congr (fun k hk => ?_) (fun _ _ _ => rfl) (fun _ _ _ => rfl)
    refine RegisterFile.get?_put_ne (fun hn => ?_) w
    rintro rfl
    exact (h.registers k hn htouch).1 hk
  | word a w =>
    refine change_congr (fun _ _ => rfl) (fun hl b hb => ?_) (fun b v c => ?_)
    · have hne := h.memory htouch.1 (.inr hl) a b htouch.2
        (RegisterFile.effectiveAddress_eq_ok_iff.1 hb)
      exact Memory.load_next_store_ne hne w
    · exact Memory.map_store_next m.memory a w b v c

end Decoding

theorem Step.fault?_congr {κ : Type} {done done' : Step κ} (h : done.result = done'.result) :
    done.fault? = done'.fault? := by
  simp only [fault?, h]

namespace Session

variable {κ : Type} [Console κ] {s : Session} {w w₁ w₂ : Word} {d d₁ d₂ : Decoding}

/-- The step of an instruction on data is told by what it changes. -/
theorem step_of_onData (hd : s.instructions.decode? w = some d) (hdata : d.OnData)
    (m : Machine κ) :
    let x := d.change s.policy.arithmetic m.registers m.memory
    (s.step w m).result = (x.map fun _ => .next).mapError .ofStop ∧
      (s.step w m).basket = s.basket ∧ (s.step w m).machine = m.settle d x := by
  obtain ⟨hresult, hbasket, hmachine⟩ := step_of_decode? hd m
  rw [hresult, hbasket, hmachine]
  have htakes := s.instructions.takes_of_decode? hd
  rcases hdata with ⟨c, hop⟩ | hop <;> rw [hop] at htakes
  · obtain ⟨n, hn, hlt⟩ := htakes.exists_register (j := 0)
      (by cases c <;> simp [Operation.arity, Computation.arity])
      (Layout.not_isImmediate_of_lt _ (by omega))
    simp only [hop, Operation.run, Operation.runAssign, Decoding.change]
    rcases hv : c.value s.policy.arithmetic m.registers m.memory d.operands with stop | v
    · exact ⟨rfl, rfl, rfl⟩
    · -- The register exists, so the write is not refused, and `put` is the same as `assign`.
      obtain ⟨registers, hset⟩ := m.registers.exists_set? hlt v
      have hassign := RegisterFile.assign_eq_ok_iff.2 ⟨n, Operands.register_eq_ok_iff.1 hn, hset⟩
      have hput : m.registers.put n v = registers := by simp [RegisterFile.put, hset]
      simp [bind, Except.bind, pure, Except.pure, hn, hassign, Except.map, Outcome.next,
        Machine.settle, Machine.put, hput]
  · simp only [hop, Operation.run, Operation.runStoreWord, Decoding.change]
    rcases haddr : m.registers.effectiveAddress d.operands with stop | addr
    · exact ⟨rfl, rfl, rfl⟩
    rcases hv : m.registers.source d.operands 0 with stop | v
    · exact ⟨rfl, rfl, rfl⟩
    rcases hs : m.memory.store addr v with e | memory <;>
      simp [bind, Except.bind, hs, Except.map, Except.mapError, Outcome.next, Outcome.stopped,
        Machine.settle, Machine.put, Memory.next]

/-- The step of an instruction that another leaves unaffected, right after the other's. -/
theorem step_after_step (h₁ : s.instructions.decode? w₁ = some d₁)
    (h₂ : s.instructions.decode? w₂ = some d₂) (hdata₁ : d₁.OnData) (hdata₂ : d₂.OnData)
    {m : Machine κ} (hfree : d₁.Unaffected d₂ m.registers) :
    let done := s.step w₁ m
    let change := fun d : Decoding => d.change s.policy.arithmetic m.registers m.memory
    ((s.after done).step w₂ done.machine).result = (s.step w₂ m).result ∧
      ((s.after done).step w₂ done.machine).machine =
        (m.settle d₁ (change d₁)).settle d₂ (change d₂) := by
  intro done change
  obtain ⟨-, -, hmachine⟩ := step_of_onData h₁ hdata₁ m
  obtain ⟨hresult, -, -⟩ := step_of_onData h₂ hdata₂ m
  obtain ⟨hresult', -, hmachine'⟩ :=
    step_of_onData (s := s.after done) (by rwa [instructions_after]) hdata₂ done.machine
  have hsame : d₂.change s.policy.arithmetic done.machine.registers done.machine.memory =
      change d₂ := by
    rw [hmachine]
    exact Decoding.change_settle hfree
  rw [policy_after, hsame] at hresult' hmachine'
  exact ⟨hresult'.trans hresult.symm, hmachine'.trans (by rw [hmachine])⟩

/-- Two words that hold independent instructions on data may be stepped in either order: each ends
as it would first, and the machine that they leave is the same but for the order of the faults. -/
theorem run_swap (s : Session) (m : Machine κ) (h₁ : s.instructions.decode? w₁ = some d₁)
    (h₂ : s.instructions.decode? w₂ = some d₂) (hdata₁ : d₁.OnData) (hdata₂ : d₂.OnData)
    (hind : d₁.Independent d₂ m.registers) :
    let first := s.step w₁ m
    let second := s.step w₂ m
    let faults₁ := first.fault?.toList.map d₁.record
    let faults₂ := second.fault?.toList.map d₂.record
    (s.run m [w₁, w₂]).map Step.result = [first.result, second.result] ∧
      (s.run m [w₂, w₁]).map Step.result = [second.result, first.result] ∧
      s.machineAfter m [w₁, w₂] =
        { s.machineAfter m [w₂, w₁] with faults := m.faults ++ faults₁ ++ faults₂ } ∧
      (s.machineAfter m [w₂, w₁]).faults = m.faults ++ faults₂ ++ faults₁ := by
  intro first second faults₁ faults₂
  obtain ⟨hresult₂, hmachine₂⟩ := step_after_step h₁ h₂ hdata₁ hdata₂ hind.left
  obtain ⟨hresult₁, hmachine₁⟩ := step_after_step h₂ h₁ hdata₂ hdata₁ hind.right
  have hfaults₂ := faults_of_decode? (s := s.after first) h₂ first.machine
  have hfaults₁ := faults_of_decode? (s := s.after second) h₁ second.machine
  rw [faults_of_decode? h₁ m, Step.fault?_congr hresult₂] at hfaults₂
  rw [faults_of_decode? h₂ m, Step.fault?_congr hresult₁] at hfaults₁
  refine ⟨by simp [run, first, second, hresult₂], by simp [run, first, second, hresult₁], ?_,
    hfaults₁⟩
  have hapart : ∀ c c', d₁.change s.policy.arithmetic m.registers m.memory = .ok c →
      d₂.change s.policy.arithmetic m.registers m.memory = .ok c' → c.Apart c' :=
    fun _ _ => Decoding.apart_of_independent hind
  have hcomm := m.settle_comm (d := d₁) (e := d₂) hapart
  rw [← hmachine₂, ← hmachine₁] at hcomm
  rw [← hfaults₂]
  exact hcomm

/-- Register 8 is stored at address 2, and address 6 is loaded into register 9. Both addresses are
refused, and the faults are recorded in the order of the words. -/
theorem run_swap_misaligned :
    ∃ (s : Session) (m : Machine ScriptedConsole) (d₁ d₂ : Decoding),
      s.instructions.decode? 0xac080002#32 = some d₁ ∧
      s.instructions.decode? 0x8c090006#32 = some d₂ ∧
      d₁.OnData ∧ d₂.OnData ∧ d₁.Independent d₂ m.registers ∧
      (s.run m [0x8c090006#32, 0xac080002#32]).map Step.result =
        [.error (.fault (.load (.misaligned 6#32))),
          .error (.fault (.store (.misaligned 2#32)))] ∧
      (s.machineAfter m [0xac080002#32, 0x8c090006#32]).faults =
        [d₁.record (.store (.misaligned 2#32)), d₂.record (.load (.misaligned 6#32))] ∧
      (s.machineAfter m [0x8c090006#32, 0xac080002#32]).faults =
        [d₂.record (.load (.misaligned 6#32)), d₁.record (.store (.misaligned 2#32))] := by
  obtain ⟨s, hs⟩ : ∃ s, s = fresh (.ofOffers (ChefAssembly.instructionsFor
      [.storeWord, .assign .loadWord])) {} := ⟨_, rfl⟩
  obtain ⟨m, hm⟩ : ∃ m, m = Machine.fresh 0#32 8 (ScriptedConsole.ofInput []) := ⟨_, rfl⟩
  have hstore : (s.instructions.decode? 0xac080002#32).map (fun d =>
      (d.instruction.operation, d.operands.toList, m.registers.effectiveAddress d.operands,
        (s.step 0xac080002#32 m).result)) =
      some (.storeWord, [8, 0, 2], .ok 2#32, .error (.fault (.store (.misaligned 2#32)))) := by
    rw [hs, hm]
    decide +kernel
  have hload : (s.instructions.decode? 0x8c090006#32).map (fun d =>
      (d.instruction.operation, d.operands.toList, m.registers.effectiveAddress d.operands,
        (s.step 0x8c090006#32 m).result)) =
      some (.assign .loadWord, [9, 0, 6], .ok 6#32,
        .error (.fault (.load (.misaligned 6#32)))) := by
    rw [hs, hm]
    decide +kernel
  obtain ⟨d₁, h₁, hd₁⟩ := Option.map_eq_some_iff.1 hstore
  obtain ⟨d₂, h₂, hd₂⟩ := Option.map_eq_some_iff.1 hload
  simp only [Prod.mk.injEq] at hd₁ hd₂
  obtain ⟨hop₁, hlist₁, haddr₁, hresult₁⟩ := hd₁
  obtain ⟨hop₂, hlist₂, haddr₂, hresult₂⟩ := hd₂
  have hind : d₁.Independent d₂ m.registers := by
    constructor
    · refine ⟨?_, ?_⟩
      · rintro n - ⟨⟨c, hc⟩, -⟩
        rw [hop₁] at hc
        cases hc
      · intro _ _ a b ha hb
        rw [← RegisterFile.effectiveAddress_eq_ok_iff] at ha hb
        rw [haddr₁] at ha
        rw [haddr₂] at hb
        cases ha
        cases hb
        decide
    · refine ⟨?_, ?_⟩
      · rintro n - ⟨-, hn⟩
        have hnine : n = 9 := by
          simp [Operands.get?, hlist₂] at hn
          omega
        subst hnine
        simp [Decoding.Reads, Decoding.Writes, hop₁, hlist₁, Operation.sources, Operands.get?]
      · intro h
        rw [Decoding.Stores, hop₂] at h
        cases h
  have hdata₁ : d₁.OnData := .inr hop₁
  have hdata₂ : d₂.OnData := .inl ⟨_, hop₂⟩
  obtain ⟨-, hresults, hmachine, hfaults⟩ := run_swap s m h₁ h₂ hdata₁ hdata₂ hind
  have hempty : m.faults = [] := by
    rw [hm]
    rfl
  refine ⟨s, m, d₁, d₂, h₁, h₂, hdata₁, hdata₂, hind, ?_, ?_, ?_⟩
  · rw [hresults, hresult₁, hresult₂]
  · rw [hmachine]
    simp [hempty, Step.fault?, hresult₁, hresult₂]
  · rw [hfaults]
    simp [hempty, Step.fault?, hresult₁, hresult₂]

end Session

end CookingIsa
