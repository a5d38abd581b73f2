import Mathlib
import CookingIsa.Proofs.Frame
import CookingIsa.Proofs.Run

/-!
# Loads see the latest store

Nothing but the storing of a register that succeeds changes the memory of a session
(`memory_step`). So in a run that starts with the memory zero, a load gives the word that was last
stored at its address, whatever register and immediate the address came from and whatever else was
done in between, and loads and stores are refused at the same addresses (`load_latest_store`).
-/

namespace CookingIsa

theorem Operands.immediate_eq_ok_iff {o : Operands} {i : Nat} {value : Int} :
    o.immediate i = .ok value ↔ o.get? i = some value := by
  unfold immediate
  rcases o.get? i with _ | v <;> simp

namespace RegisterFile

variable {r : RegisterFile} {o : Operands} {addr w : Word}

/-- An address is what the register of operand 1 holds plus the immediate, as numbers with sign and
modulo the size of the address space. -/
def Addresses (r : RegisterFile) (o : Operands) (addr : Word) : Prop :=
  ∃ (n : Nat) (w : Word) (immediate : Int), o.get? 1 = some (n : Int) ∧ r.get? n = some w ∧
    o.get? 2 = some immediate ∧ (addr.toNat : Int) = (w.toInt + immediate) % 2 ^ 32

theorem read_eq_ok_iff {n : Nat} : r.read n = .ok w ↔ r.get? n = some w := by
  unfold read
  rcases r.get? n with _ | v <;> simp

theorem source_eq_ok_iff {i : Nat} :
    r.source o i = .ok w ↔ ∃ n : Nat, o.get? i = some (n : Int) ∧ r.get? n = some w := by
  simp only [source, bind_eq_ok_iff, Operands.register_eq_ok_iff, read_eq_ok_iff]

theorem add_ofInt_eq_iff {immediate : Int} : w + BitVec.ofInt 32 immediate = addr ↔
    (addr.toNat : Int) = (w.toInt + immediate) % 2 ^ 32 := by
  have hsum : w + BitVec.ofInt 32 immediate = BitVec.ofInt 32 (w.toInt + immediate) := by
    rw [BitVec.ofInt_add, BitVec.ofInt_toInt]
  have hnat : ((BitVec.ofInt 32 (w.toInt + immediate)).toNat : Int) =
      (w.toInt + immediate) % 2 ^ 32 := by
    rw [BitVec.toNat_ofInt, Int.toNat_of_nonneg (Int.emod_nonneg _ (by decide))]
    rfl
  rw [hsum, ← hnat, Int.natCast_inj, ← BitVec.toNat_inj, eq_comm]

theorem effectiveAddress_eq_ok_iff : r.effectiveAddress o = .ok addr ↔ r.Addresses o addr := by
  simp only [effectiveAddress, bind_eq_ok_iff, source_eq_ok_iff, Operands.immediate_eq_ok_iff, pure,
    Except.pure, Except.ok.injEq, add_ofInt_eq_iff, Addresses]
  constructor
  · rintro ⟨w, ⟨n, hn, hw⟩, immediate, himm, haddr⟩
    exact ⟨n, w, immediate, hn, hw, himm, haddr⟩
  · rintro ⟨n, w, immediate, hn, hw, himm, haddr⟩
    exact ⟨w, ⟨n, hn, hw⟩, immediate, himm, haddr⟩

end RegisterFile

/-! ## One access -/

namespace Operation

variable {κ : Type} {o : Operands} {b : Basket} {m : Machine κ} {addr w : Word}

theorem runAssign_loadWord_error {mode : ArithmeticMode} {e : AddressError}
    (haddr : m.registers.effectiveAddress o = .ok addr)
    (hload : m.memory.load addr = .error (.address e)) :
    (runAssign .loadWord mode o b m).result = .error (.fault (.load e)) := by
  simp [runAssign, Computation.value, haddr, hload, bind, Except.bind, Except.mapError,
    Stop.ofMemory, Outcome.stopped]

theorem runAssign_loadWord_ok {mode : ArithmeticMode} {registers : RegisterFile}
    (haddr : m.registers.effectiveAddress o = .ok addr) (hload : m.memory.load addr = .ok w)
    (hassign : m.registers.assign o w = .ok registers) :
    runAssign .loadWord mode o b m = .next b { m with registers } [] := by
  simp [runAssign, Computation.value, haddr, hload, hassign, bind, Except.bind, Except.mapError]

theorem runStoreWord_eq (haddr : m.registers.effectiveAddress o = .ok addr)
    (hsource : m.registers.source o 0 = .ok w) :
    runStoreWord o b m = match m.memory.store addr w with
      | .error e => .stopped (.ofMemory .store e) b m
      | .ok memory => .next b { m with memory } [] := by
  simp only [runStoreWord, haddr, hsource, bind, Except.bind]
  rcases m.memory.store addr w with e | memory <;> rfl

end Operation

namespace Session

variable {κ : Type} [Console κ]

/-- The address and the word of a step that stores a register, if it succeeds. -/
def stored? (s : Session) (w : Word) (m : Machine κ) : Option (Word × Word) := do
  let d ← s.instructions.decode? w
  guard (d.instruction.operation = .storeWord ∧ (s.step w m).result = .ok .next)
  let addr ← (m.registers.effectiveAddress d.operands).toOption
  let source ← (m.registers.source d.operands 0).toOption
  return (addr, source)

/-- The stores of a run that succeed, in order, each with its address and the word that the register
then held. -/
def stores (s : Session) (m : Machine κ) : List Word → List (Word × Word)
  | [] => []
  | w :: words =>
    (s.stored? w m).toList ++ (s.after (s.step w m)).stores (s.step w m).machine words

theorem memory_step (s : Session) (w : Word) (m : Machine κ) :
    (s.stored? w m = none ∧ (s.step w m).machine.memory = m.memory) ∨
      ∃ addr v, s.stored? w m = some (addr, v) ∧
        m.memory.store addr v = .ok (s.step w m).machine.memory := by
  obtain ⟨hd, hstep⟩ | ⟨d, o, hd, heffect, hresult, -, hmachine⟩ := s.step_cases w m
  · exact .inl ⟨by simp [stored?, hd], by rw [hstep]; rfl⟩
  have hother : d.instruction.operation ≠ .storeWord ∨ (∃ stop, o.result = .error stop) →
      s.stored? w m = none := by
    rintro (hop | ⟨stop, hstop⟩)
    · simp [stored?, hd, hop]
    · simp [stored?, hd, hresult, hstop, Except.mapError]
  rw [hmachine, Machine.memory_note]
  generalize hop : d.instruction.operation = op at heffect
  cases heffect with
  | stored haddr hsource hstore =>
    refine .inr ⟨_, _, ?_, hstore⟩
    simp [stored?, hd, hop, hresult, haddr, hsource, Outcome.next, Except.mapError, Except.toOption]
  | written hline =>
    refine .inl ⟨hother (.inl ?_), rfl⟩
    rw [hop]
    rcases hline.eq with rfl | rfl <;> simp
  | assigned | branched | passed | ignored | collected =>
    exact .inl ⟨hother (.inl (by simp [hop])), rfl⟩
  | uncollected | unwritten | stopped => exact .inl ⟨hother (.inr ⟨_, rfl⟩), rfl⟩

/-! ## Runs -/

variable {base : Word} {size : Nat}

theorem holds_step {s : Session} {m : Machine κ} {before : List (Word × Word)}
    (h : m.memory.Holds base size before) (w : Word) :
    (s.step w m).machine.memory.Holds base size (before ++ (s.stored? w m).toList) := by
  obtain ⟨hnone, hmemory⟩ | ⟨addr, v, hsome, hstore⟩ := s.memory_step w m
  · simpa [hnone, hmemory] using h
  · simpa [hsome] using h.store hstore

theorem holds_machineAfter : ∀ (words : List Word) {s : Session} {m : Machine κ}
    {before : List (Word × Word)}, m.memory.Holds base size before →
      (s.machineAfter m words).memory.Holds base size (before ++ s.stores m words)
  | [], s, m, before, h => by simpa [machineAfter, stores] using h
  | w :: words, s, m, before, h => by
    have ih := holds_machineAfter words (s := s.after (s.step w m)) (holds_step (s := s) h w)
    simpa [machineAfter, stores] using ih

variable {s : Session} {m : Machine κ} {w : Word} {d : Decoding} {before : List (Word × Word)}

theorem exists_source_of_decode? (hd : s.instructions.decode? w = some d) {i : Nat}
    (hi : i < d.instruction.operation.arity) (hreg : i < 2) (r : RegisterFile) :
    ∃ (n : Nat) (v : Word), d.operands.get? i = some (n : Int) ∧ n < Register.count ∧
      r.get? n = some v := by
  have htakes := s.instructions.takes_of_decode? hd
  obtain ⟨n, hn, hlt⟩ := htakes.exists_register hi (Layout.not_isImmediate_of_lt _ hreg)
  obtain ⟨v, hv⟩ := Option.isSome_iff_exists.1 (r.isSome_get? hlt)
  exact ⟨n, v, Operands.register_eq_ok_iff.1 hn, hlt, hv⟩

theorem exists_addresses_of_decode? (hd : s.instructions.decode? w = some d)
    (harity : d.instruction.operation.arity = 3) (r : RegisterFile) :
    ∃ addr, r.effectiveAddress d.operands = .ok addr := by
  obtain ⟨n, v, hn, -, hv⟩ := exists_source_of_decode? hd (i := 1) (by omega) (by omega) r
  obtain ⟨immediate, himm⟩ :=
    (s.instructions.takes_of_decode? hd).exists_get? (j := 2) (by omega)
  refine ⟨v + BitVec.ofInt 32 immediate, RegisterFile.effectiveAddress_eq_ok_iff.2 ?_⟩
  exact ⟨n, v, immediate, hn, hv, himm, RegisterFile.add_ofInt_eq_iff.1 rfl⟩

theorem step_loadWord (h : m.memory.Holds base size before)
    (hd : s.instructions.decode? w = some d)
    (hop : d.instruction.operation = .assign .loadWord) :
    ∃ (addr : Word) (n : Nat), m.registers.Addresses d.operands addr ∧
      d.operands.get? 0 = some (n : Int) ∧ match Memory.addressError? base size addr with
      | some e => (s.step w m).result = .error (.fault (.load e))
      | none => (s.step w m).result = .ok .next ∧
          (n ≠ 0 → (s.step w m).machine.registers.get? n = some (latestStore before addr)) := by
  obtain ⟨addr, haddr⟩ := exists_addresses_of_decode? hd (by rw [hop]; rfl) m.registers
  obtain ⟨n, -, hn, hlt, -⟩ :=
    exists_source_of_decode? hd (i := 0) (by rw [hop]; decide) (by omega) m.registers
  refine ⟨addr, n, RegisterFile.effectiveAddress_eq_ok_iff.1 haddr, hn, ?_⟩
  obtain ⟨hresult, -, hmachine⟩ := step_of_decode? hd m
  have hload := h.load_eq addr
  rw [hop] at hresult hmachine
  simp only [Operation.run] at hresult hmachine
  rcases he : Memory.addressError? base size addr with _ | e <;> rw [he] at hload
  · obtain ⟨registers, hset⟩ := m.registers.exists_set? hlt (latestStore before addr)
    have hassign := RegisterFile.assign_eq_ok_iff.2 ⟨n, hn, hset⟩
    rw [Operation.runAssign_loadWord_ok haddr hload hassign] at hresult hmachine
    refine ⟨hresult, fun hpos => ?_⟩
    have hget := RegisterFile.get?_of_set? hset n
    rw [if_pos ⟨rfl, hpos⟩] at hget
    rw [hmachine, Machine.registers_note]
    exact hget
  · rw [Operation.runAssign_loadWord_error haddr hload] at hresult
    exact hresult

theorem step_storeWord (h : m.memory.Holds base size before)
    (hd : s.instructions.decode? w = some d) (hop : d.instruction.operation = .storeWord) :
    ∃ addr, m.registers.Addresses d.operands addr ∧
      (s.step w m).result = match Memory.addressError? base size addr with
        | some e => .error (.fault (.store e))
        | none => .ok .next := by
  obtain ⟨addr, haddr⟩ := exists_addresses_of_decode? hd (by rw [hop]; rfl) m.registers
  obtain ⟨n, v, hn, -, hv⟩ :=
    exists_source_of_decode? hd (i := 0) (by rw [hop]; decide) (by omega) m.registers
  refine ⟨addr, RegisterFile.effectiveAddress_eq_ok_iff.1 haddr, ?_⟩
  obtain ⟨hresult, -, -⟩ := step_of_decode? hd m
  have hsource := RegisterFile.source_eq_ok_iff.2 ⟨n, hn, hv⟩
  rw [hop, Operation.run, Operation.runStoreWord_eq haddr hsource] at hresult
  rcases he : Memory.addressError? base size addr with _ | e
  · obtain ⟨memory, hstore⟩ := h.exists_store_eq_ok he v
    rw [hstore] at hresult
    exact hresult
  · rw [h.store_eq_error he v] at hresult
    exact hresult

/-- In every run from a machine whose memory is zero, a load at an address that names no word faults
for that address, and any other leaves in its register the word of the last store there that
succeeded, or zero if there was none; and a store is refused where a load would be. -/
theorem load_latest_store (s : Session) {m : Machine κ} (hm : m.memory = .zero base size)
    (words : List Word) {w : Word} {d : Decoding} (hd : s.instructions.decode? w = some d) :
    let s' := s.sessionAfter m words
    let m' := s.machineAfter m words
    (d.instruction.operation = .assign .loadWord →
      ∃ (addr : Word) (n : Nat), m'.registers.Addresses d.operands addr ∧
        d.operands.get? 0 = some (n : Int) ∧
        match Memory.addressError? base size addr with
        | some e => (s'.step w m').result = .error (.fault (.load e))
        | none => (s'.step w m').result = .ok .next ∧ (n ≠ 0 →
            (s'.step w m').machine.registers.get? n = some (latestStore (s.stores m words) addr))) ∧
      (d.instruction.operation = .storeWord →
        ∃ addr, m'.registers.Addresses d.operands addr ∧
          (s'.step w m').result = match Memory.addressError? base size addr with
            | some e => .error (.fault (.store e))
            | none => .ok .next) := by
  have hzero : m.memory.Holds base size [] := by
    rw [hm]
    exact Memory.holds_zero base size
  have hholds := holds_machineAfter words (s := s) hzero
  have hd' : (s.sessionAfter m words).instructions.decode? w = some d := by
    rwa [instructions_sessionAfter]
  exact ⟨step_loadWord hholds hd', step_storeWord hholds hd'⟩

/-- The number five is stored in the last word of the address space, as -4 from register 0. A fault
and a word that matches nothing come in between, and then the register that held the number becomes
the base from which the word is reached again, with the load overwriting it. -/
theorem load_latest_store_aliased :
    ∃ (s : Session) (m : Machine ScriptedConsole) (words : List Word) (d : Decoding),
      m.memory = .zero 0xfffffffc#32 7 ∧
      words = [0x20080005#32, 0xac08fffc#32, 0xac08fffd#32, 0xffffffff#32, 0x2008fff8#32] ∧
      s.instructions.decode? 0x8d080004#32 = some d ∧
      d.instruction.operation = .assign .loadWord ∧
      (s.machineAfter m words).registers.get? 8 = some (BitVec.ofInt 32 (-8)) ∧
      s.stores m words = [(0xfffffffc#32, 5#32)] ∧
      ((s.sessionAfter m words).step 0x8d080004#32
        (s.machineAfter m words)).machine.registers.get? 8 = some 5#32 := by
  obtain ⟨s, hs⟩ : ∃ s, s = fresh (.ofOffers (ChefAssembly.instructionsFor
      [.storeWord, .assign .loadWord, .assign .addImmediate])) {} := ⟨_, rfl⟩
  obtain ⟨m, hm⟩ : ∃ m, m = Machine.fresh 0xfffffffc#32 7 (ScriptedConsole.ofInput []) :=
    ⟨_, rfl⟩
  obtain ⟨words, hwords⟩ : ∃ words : List Word, words =
    [0x20080005#32, 0xac08fffc#32, 0xac08fffd#32, 0xffffffff#32, 0x2008fff8#32] := ⟨_, rfl⟩
  have hdecode : (s.instructions.decode? 0x8d080004#32).map (fun d =>
      (d.instruction.operation, d.operands.get? 0,
        (s.machineAfter m words).registers.effectiveAddress d.operands)) =
      some (.assign .loadWord, some 8, .ok 0xfffffffc#32) := by
    rw [hs, hm, hwords]
    decide +kernel
  obtain ⟨d, hd, hd'⟩ := Option.map_eq_some_iff.1 hdecode
  simp only [Prod.mk.injEq] at hd'
  obtain ⟨hop, hzero, haddress⟩ := hd'
  have hbase : (s.machineAfter m words).registers.get? 8 = some (BitVec.ofInt 32 (-8)) := by
    rw [hs, hm, hwords]
    decide +kernel
  have hstores : s.stores m words = [(0xfffffffc#32, 5#32)] := by
    rw [hs, hm, hwords]
    decide +kernel
  have hmemory : m.memory = .zero 0xfffffffc#32 7 := by rw [hm]; rfl
  obtain ⟨addr, n, haddr, hn, hload⟩ := (load_latest_store s hmemory words hd).1 hop
  obtain rfl : addr = 0xfffffffc#32 :=
    Except.ok.inj ((RegisterFile.effectiveAddress_eq_ok_iff.2 haddr).symm.trans haddress)
  obtain rfl : n = 8 := by
    rw [hzero, Option.some.injEq] at hn
    omega
  rw [show Memory.addressError? 0xfffffffc#32 7 0xfffffffc#32 = none by decide, hstores] at hload
  exact ⟨s, m, words, d, hmemory, hwords, hd, hop, hbase, hstores, hload.2 (by decide)⟩

end Session

end CookingIsa
