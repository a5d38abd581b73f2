import Mathlib
import CookingIsa.Proofs.Effect
import CookingIsa.Proofs.InBounds
import CookingIsa.Proofs.WordMap

/-!
# What a step leaves as it was

A step that fails leaves the basket and the machine as they were, apart from the record of the fault
and the prompt for a line that was not there (`step_error_atomic`). A step that succeeds changes one
part of them at most, and which one depends on the operation alone (`step_frame`). Nothing ever
changes register 0 (`register_zero_machineAfter`), and of the other registers a step changes one at
most, which is what a comparison of the register files before and after lists (`changesSince_step`).
-/

namespace CookingIsa

namespace ScriptedConsole

variable {c c' : ScriptedConsole} {prompt line : String}

theorem eq_of_readLine_eq_ok (h : Console.readLine c prompt = (.ok line, c')) :
    c.input = line :: c'.input ∧ c'.prompts = c.prompts ++ [prompt] ∧ c'.output = c.output := by
  simp only [Console.readLine, readLine] at h
  split at h
  · simp at h
  · rename_i first input hinput
    simp only [Prod.mk.injEq, Except.ok.injEq] at h
    obtain ⟨rfl, rfl⟩ := h
    exact ⟨hinput, rfl, rfl⟩

theorem eq_of_readLine_eq_error {e : ConsoleError}
    (h : Console.readLine c prompt = (.error e, c')) :
    c.input = [] ∧ c' = { c with prompts := c.prompts ++ [prompt] } := by
  simp only [Console.readLine, readLine] at h
  split at h
  · rename_i hinput
    simp only [Prod.mk.injEq] at h
    exact ⟨hinput, h.2.symm⟩
  · simp at h

theorem eq_of_writeLine_eq {written : Except ConsoleError Unit}
    (h : Console.writeLine c line = (written, c')) :
    written = .ok () ∧ c' = { c with output := c.output ++ [line] } := by
  simp only [Console.writeLine, writeLine, Prod.mk.injEq] at h
  exact ⟨h.1.symm, h.2.symm⟩

end ScriptedConsole

/-! ## Steps that fail -/

section Failure

/-- What a word has left that failed: everything as it was, but for a prompt without an answer. -/
structure Failed (instructions : InstructionSet) (w : Word) (b : Basket)
    (m : Machine ScriptedConsole) (done : Step ScriptedConsole) : Prop where
  basket_eq : done.basket = b
  registers_eq : done.machine.registers = m.registers
  memory_eq : done.machine.memory = m.memory
  branches_eq : done.machine.branches = m.branches
  output_eq : done.machine.console.output = m.console.output
  console_of_collect : ∀ d i, instructions.decode? w = some d →
    d.instruction.operation = .collect i → m.console.input = [] ∧
      done.machine.console = { m.console with prompts := m.console.prompts ++ [i.prompt] }
  console_of_not_collect : (∀ d i, instructions.decode? w = some d →
    d.instruction.operation ≠ .collect i) → done.machine.console = m.console

namespace Operation.Effect

variable {κ : Type} [Console κ] {policy : Policy} {op : Operation} {o : Operands} {b : Basket}

theorem eq_of_error {m : Machine κ} {outcome : Outcome κ} {s : Stop}
    (h : Effect policy o b m op outcome) (hs : outcome.result = .error s) :
    outcome.basket = b ∧ outcome.machine = { m with console := outcome.machine.console } := by
  cases h with
  | assigned | branched | passed | ignored | stored | collected | written => cases hs
  | uncollected | unwritten | stopped => exact ⟨rfl, rfl⟩

theorem console_of_error {m : Machine ScriptedConsole} {outcome : Outcome ScriptedConsole}
    {s : Stop} (h : Effect policy o b m op outcome) (hs : outcome.result = .error s) :
    (∃ i, op = collect i ∧ m.console.input = [] ∧
        outcome.machine.console = { m.console with prompts := m.console.prompts ++ [i.prompt] }) ∨
      (∀ i, op ≠ collect i) ∧ outcome.machine.console = m.console := by
  cases h with
  | assigned | branched | passed | ignored | stored | collected | written => cases hs
  | uncollected hread => exact .inl ⟨_, rfl, ScriptedConsole.eq_of_readLine_eq_error hread⟩
  | unwritten hline hwrite => cases (ScriptedConsole.eq_of_writeLine_eq hwrite).1
  | stopped hop => exact .inr ⟨hop, rfl⟩

end Operation.Effect

namespace Session

theorem unchanged_of_step_eq_error {κ : Type} [Console κ] {s : Session} {w : Word} {m : Machine κ}
    {e : StepError} (he : (s.step w m).result = .error e) :
    (s.step w m).basket = s.basket ∧ (s.step w m).machine.registers = m.registers ∧
      (s.step w m).machine.memory = m.memory ∧ (s.step w m).machine.branches = m.branches := by
  obtain ⟨-, hstep⟩ | ⟨d, o, -, heffect, hresult, hbasket, hmachine⟩ := s.step_cases w m
  · rw [hstep]
    exact ⟨rfl, rfl, rfl, rfl⟩
  · obtain ⟨stop, hstop, -⟩ := mapError_eq_error_iff.1 (hresult.symm.trans he)
    obtain ⟨hb, hm⟩ := heffect.eq_of_error hstop
    rw [hbasket, hmachine, Machine.registers_note, Machine.memory_note, Machine.branches_note, hm]
    exact ⟨hb, rfl, rfl, rfl⟩

theorem failed_of_step_eq_error {s : Session} {w : Word} {m : Machine ScriptedConsole}
    {e : StepError} (he : (s.step w m).result = .error e) :
    Failed s.instructions w s.basket m (s.step w m) := by
  obtain ⟨hbasket, hregisters, hmemory, hbranches⟩ := unchanged_of_step_eq_error he
  obtain ⟨hd, hstep⟩ | ⟨d, o, hd, heffect, hresult, -, hmachine⟩ := s.step_cases w m
  · rw [hstep]
    exact ⟨rfl, rfl, rfl, rfl, rfl, fun d i hd' => by simp [hd] at hd', fun _ => rfl⟩
  · obtain ⟨stop, hstop, -⟩ := mapError_eq_error_iff.1 (hresult.symm.trans he)
    have hconsole := heffect.console_of_error hstop
    rw [← o.machine.console_note d o.result, ← hmachine] at hconsole
    have houtput : (s.step w m).machine.console.output = m.console.output := by
      rcases hconsole with ⟨i, -, -, h⟩ | ⟨-, h⟩ <;> rw [h]
    refine ⟨hbasket, hregisters, hmemory, hbranches, houtput, fun d' i hd' hop => ?_,
      fun hop => ?_⟩
    · obtain rfl : d = d' := by simpa [hd] using hd'
      rcases hconsole with ⟨j, hj, h⟩ | ⟨hne, -⟩
      · obtain rfl : j = i := by simpa [hj] using hop
        exact h
      · exact absurd hop (hne i)
    · rcases hconsole with ⟨i, hi, -⟩ | ⟨-, h⟩
      · exact absurd hi (hop d i hd)
      · exact h

theorem cause_of_step_eq_error {κ : Type} [Console κ] {s : Session} (hs : s.HostCallRegisters)
    {w : Word} {m : Machine κ} {e : StepError} (he : (s.step w m).result = .error e) :
    e = .noMatch w ∧ s.instructions.decode? w = none ∨
      ∃ f d, e = .fault f ∧ s.instructions.decode? w = some d := by
  have hbounds := step_inBounds hs w m
  obtain ⟨hd, hstep⟩ | ⟨d, o, hd, -, hresult, -⟩ := s.step_cases w m
  · rw [hstep, Step.noMatch, Except.error.injEq] at he
    exact .inl ⟨he.symm, hd⟩
  · rw [he] at hbounds hresult
    rcases ho : o.result with (f | _) | c <;> rw [ho] at hresult
    · rw [Except.mapError, Except.error.injEq] at hresult
      exact .inr ⟨f, d, hresult, hd⟩
    · exact absurd hresult hbounds
    · cases hresult

/-- A step fails because its word matches nothing or because of a fault, and then it has changed
nothing; only a collect with no line left to read has shown its prompt. -/
theorem step_error_atomic {instructions : InstructionSet} {config : Config} {s : Session}
    (hs : create instructions config = .ok s) (b : Basket) (w : Word)
    (m : Machine ScriptedConsole) {e : StepError}
    (he : ((s.withBasket b).step w m).result = .error e) :
    (e = .noMatch w ∧ instructions.decode? w = none ∨
        ∃ f d, e = .fault f ∧ instructions.decode? w = some d) ∧
      Failed instructions w b m ((s.withBasket b).step w m) := by
  obtain ⟨hregisters, hs⟩ := (create_eq_ok_iff _ _ _).1 hs
  have hinstructions : (s.withBasket b).instructions = instructions := by
    rw [instructions_withBasket, hs]
  have hvalid : (s.withBasket b).HostCallRegisters := by rw [hs]; exact hregisters
  have hcause := cause_of_step_eq_error hvalid he
  have hfailed := failed_of_step_eq_error he
  rw [hinstructions] at hcause hfailed
  exact ⟨hcause, hfailed⟩

/-- With no line left, the choice of a protein faults behind its prompt. -/
theorem step_error_atomic_exhausted :
    ∃ s m done, create (.ofOffers (ChefAssembly.instructionsFor [.collect .protein])) {} = .ok s ∧
      m = Machine.fresh 0x10010000#32 8 (⟨[], ["earlier"], ["line"]⟩ : ScriptedConsole) ∧
      done = (s.withBasket (.put .empty .dairy "milk")).step 0x3b#32 m ∧
      done.result = .error (.fault (.console .exhausted)) ∧
      done.machine.console = ⟨[], ["earlier", Ingredient.protein.prompt], ["line"]⟩ ∧
      Failed s.instructions 0x3b#32 (.put .empty .dairy "milk") m done := by
  obtain ⟨s, hs⟩ : ∃ s,
      s = fresh (.ofOffers (ChefAssembly.instructionsFor [.collect .protein])) {} := ⟨_, rfl⟩
  obtain ⟨m, hm⟩ : ∃ m, m =
      Machine.fresh 0x10010000#32 8 (⟨[], ["earlier"], ["line"]⟩ : ScriptedConsole) := ⟨_, rfl⟩
  have hcreate : create s.instructions {} = .ok s := by
    rw [hs]
    exact create_eq_fresh _ rfl
  have hresult : ((s.withBasket (.put .empty .dairy "milk")).step 0x3b#32 m).result =
      .error (.fault (.console .exhausted)) := by
    rw [hs, hm]
    decide +kernel
  have hconsole : ((s.withBasket (.put .empty .dairy "milk")).step 0x3b#32 m).machine.console =
      ⟨[], ["earlier", Ingredient.protein.prompt], ["line"]⟩ := by
    rw [hs, hm]
    decide +kernel
  have hatomic := step_error_atomic hcreate (.put .empty .dairy "milk") 0x3b#32 m hresult
  exact ⟨s, m, _, by rw [← hcreate, hs]; rfl, hm, rfl, hresult, hconsole, hatomic.2⟩

end Session

end Failure

/-! ## Steps that succeed -/

section Success

namespace RegisterFile

theorem getElem?_of_set? {r r' : RegisterFile} {n k : Nat} {w : Word} (h : r.set? n w = some r')
    (hk : r'.values[k]? ≠ r.values[k]?) : k = n ∧ n ≠ 0 := by
  unfold set? at h
  split_ifs at h with hn hlt
  · cases h
    exact absurd rfl hk
  · cases h
    by_contra hne
    have hkn : n ≠ k := fun e => hne ⟨e.symm, hn⟩
    exact hk (Vector.getElem?_set_ne hlt hkn)

theorem filterMap_range_eq {β : Type} {f : Nat → Option β} {n : Nat}
    (hf : ∀ k, k ≠ n → f k = none) : ∀ m, n < m → (List.range m).filterMap f = (f n).toList
  | 0, hn => absurd hn n.not_lt_zero
  | m + 1, hn => by
    rw [List.range_succ, List.filterMap_append]
    by_cases hm : n = m
    · subst hm
      have hnone : (List.range n).filterMap f = [] :=
        List.filterMap_eq_nil_iff.2 fun k hk => hf k (List.mem_range.1 hk).ne
      rw [hnone]
      cases hfn : f n <;> simp [hfn]
    · rw [filterMap_range_eq hf m (by omega)]
      simp [hf m (Ne.symm hm)]

theorem changesSince_self (r : RegisterFile) : r.changesSince r = [] := by
  refine List.filterMap_eq_nil_iff.2 fun n _ => ?_
  rcases r.values[n]? with _ | w <;> simp

theorem changesSince_of_set? {r r' : RegisterFile} {n : Nat} {w : Word}
    (h : r.set? n w = some r') :
    r'.changesSince r = [] ∨ n ≠ 0 ∧ r'.changesSince r = [(n, w)] := by
  by_cases hn : n = 0
  · rw [set?, if_pos hn] at h
    cases h
    exact .inl r.changesSince_self
  have hother : ∀ k, k ≠ n → r'.values[k]? = r.values[k]? := by
    intro k hk
    by_contra hne
    exact hk (getElem?_of_set? h hne).1
  rw [set?, if_neg hn] at h
  split_ifs at h with hlt
  cases h
  unfold changesSince
  rw [filterMap_range_eq (fun k hk => ?_) _ hlt]
  · rw [Vector.getElem?_eq_getElem hlt, Vector.getElem?_eq_getElem hlt, Vector.getElem_set_self]
    dsimp only
    split_ifs
    · exact .inl rfl
    · exact .inr ⟨hn, rfl⟩
  · rw [hother k hk]
    rcases r.values[k]? with _ | w <;> simp

end RegisterFile

section Changes

variable {κ : Type} [Console κ]

theorem Operation.Effect.registers_cases {policy : Policy} {op : Operation} {o : Operands}
    {b : Basket} {m : Machine κ} {outcome : Outcome κ} (h : Effect policy o b m op outcome) :
    outcome.machine.registers = m.registers ∨ ∃ (n : Nat) (w : Word), o.get? 0 = some (n : Int) ∧
      m.registers.set? n w = some outcome.machine.registers := by
  cases h with
  | assigned hvalue hassign =>
    obtain ⟨n, hn, hset⟩ := RegisterFile.assign_eq_ok_iff.1 hassign
    exact .inr ⟨n, _, hn, hset⟩
  | _ => exact .inl rfl

namespace Session

theorem registers_step_cases (s : Session) (w : Word) (m : Machine κ) :
    (s.step w m).machine.registers = m.registers ∨ ∃ (d : Decoding) (n : Nat) (v : Word),
      s.instructions.decode? w = some d ∧ d.operands.get? 0 = some (n : Int) ∧
        m.registers.set? n v = some (s.step w m).machine.registers := by
  obtain ⟨-, hstep⟩ | ⟨d, o, hd, heffect, -, -, hmachine⟩ := s.step_cases w m
  · rw [hstep]
    exact .inl rfl
  · rw [hmachine, Machine.registers_note]
    rcases heffect.registers_cases with h | ⟨n, v, hn, hset⟩
    · exact .inl h
    · exact .inr ⟨d, n, v, hd, hn, hset⟩

theorem register_zero_of_step (s : Session) (w : Word) (m : Machine κ) :
    (s.step w m).machine.registers.values[0]? = m.registers.values[0]? := by
  rcases s.registers_step_cases w m with h | ⟨d, n, v, -, -, hset⟩
  · rw [h]
  · by_contra hne
    obtain ⟨hzero, hpos⟩ := RegisterFile.getElem?_of_set? hset hne
    exact hpos hzero.symm

/-- A step changes one register at most: the one that operand 0 names, and never register 0. -/
theorem changesSince_step (s : Session) (w : Word) (m : Machine κ) :
    let changes := (s.step w m).machine.registers.changesSince m.registers
    changes = [] ∨ ∃ (d : Decoding) (n : Nat) (v : Word), s.instructions.decode? w = some d ∧
      d.operands.get? 0 = some (n : Int) ∧ n ≠ 0 ∧ changes = [(n, v)] := by
  intro changes
  rcases s.registers_step_cases w m with h | ⟨d, n, v, hd, hn, hset⟩
  · refine .inl ?_
    simp only [changes, h, RegisterFile.changesSince_self]
  · rcases RegisterFile.changesSince_of_set? hset with hnil | ⟨hpos, hone⟩
    · exact .inl hnil
    · exact .inr ⟨d, n, v, hd, hn, hpos, hone⟩

end Session

end Changes

namespace Memory

theorem eq_of_store {m m' : Memory} {addr w : Word} (h : m.store addr w = .ok m') :
    m'.base = m.base ∧ m'.size = m.size ∧ ∀ i, m'.bytes i ≠ m.bytes i →
      addr.toNat ≤ m.base.toNat + i ∧ m.base.toNat + i < addr.toNat + 4 := by
  obtain ⟨offset, hl, hw⟩ := store_eq_ok_iff.1 h
  obtain ⟨-, haddr⟩ := locate_eq_ok_iff.1 hl
  obtain ⟨hbase, hsize⟩ := range_of_writeWord? hw
  refine ⟨hbase, hsize, fun i hi => ?_⟩
  rw [bytes_of_writeWord? hw] at hi
  split_ifs at hi with hin
  · omega
  · exact absurd rfl hi

end Memory

/-- What a decoded word may have changed that succeeded, from a basket and a machine to those after
it. -/
structure Frame (d : Decoding) (b b' : Basket) (m m' : Machine ScriptedConsole) (c : Control) :
    Prop where
  register : ∀ n : Nat, m'.registers.values[n]? ≠ m.registers.values[n]? →
    n ≠ 0 ∧ d.operands.get? 0 = some (n : Int) ∧ ∃ value, d.instruction.operation = .assign value
  mapping : m'.memory.base = m.memory.base ∧ m'.memory.size = m.memory.size
  byte : ∀ i, m'.memory.bytes i ≠ m.memory.bytes i → d.instruction.operation = .storeWord ∧
    ∃ addr, m.registers.effectiveAddress d.operands = .ok addr ∧
      addr.toNat ≤ m.memory.base.toNat + i ∧ m.memory.base.toNat + i < addr.toNat + 4
  ingredient : ∀ i, b'.get? i ≠ b.get? i → d.instruction.operation = .collect i
  input : m'.console.input ≠ m.console.input → ∃ i, d.instruction.operation = .collect i
  prompts : m'.console.prompts ≠ m.console.prompts → ∃ i, d.instruction.operation = .collect i
  output : m'.console.output ≠ m.console.output →
    (d.instruction.operation = .hostCall ∨ d.instruction.operation = .present) ∧
      ∃ line, m'.console.output = m.console.output ++ [line]
  branches : m'.branches ≠ m.branches → d.instruction.operation = .branchEqual
  faults : m'.faults = m.faults
  control : ∀ target, c = .branch target → d.instruction.operation = .branchEqual

theorem Frame.refl (d : Decoding) (b : Basket) (m : Machine ScriptedConsole) :
    Frame d b b m m .next := by
  constructor <;> simp

theorem Operation.Writes.eq {policy : Policy} {b : Basket} {r : RegisterFile} {op : Operation}
    {line : String} (h : op.Writes policy b r line) : op = hostCall ∨ op = present := by
  cases h with
  | dishes | dish => exact .inl rfl
  | presentation => exact .inr rfl

theorem Operation.Effect.frame {policy : Policy} {d : Decoding} {b : Basket}
    {m : Machine ScriptedConsole} {o : Outcome ScriptedConsole} {c : Control}
    (h : Effect policy d.operands b m d.instruction.operation o) (hc : o.result = .ok c) :
    Frame d b o.basket m o.machine c := by
  have hrefl := Frame.refl d b m
  generalize hop : d.instruction.operation = op at h
  cases h with
  | assigned hvalue hassign =>
    cases hc
    obtain ⟨n, hn, hset⟩ := RegisterFile.assign_eq_ok_iff.1 hassign
    refine { hrefl with register := fun k hk => ?_ }
    obtain ⟨rfl, hpos⟩ := RegisterFile.getElem?_of_set? hset hk
    exact ⟨hpos, hn, _, hop⟩
  | branched =>
    cases hc
    exact { hrefl with branches := fun _ => hop, control := fun _ _ => hop }
  | passed | ignored =>
    cases hc
    exact hrefl
  | stored haddr hsource hstore =>
    cases hc
    obtain ⟨hbase, hsize, hbytes⟩ := Memory.eq_of_store hstore
    exact { hrefl with
      mapping := ⟨hbase, hsize⟩
      byte := fun i hi => ⟨hop, _, haddr, hbytes i hi⟩ }
  | @collected i line console hread =>
    cases hc
    obtain ⟨-, -, houtput⟩ := ScriptedConsole.eq_of_readLine_eq_ok hread
    refine { hrefl with
      ingredient := fun j hj => ?_
      input := fun _ => ⟨_, hop⟩
      prompts := fun _ => ⟨_, hop⟩
      output := fun hne => absurd houtput hne }
    by_cases hji : j = i
    · rw [hji, hop]
    · exact absurd (by simp [Outcome.next, hji]) hj
  | written hline hwrite =>
    cases hc
    obtain ⟨-, rfl⟩ := ScriptedConsole.eq_of_writeLine_eq hwrite
    exact { hrefl with output := fun _ => ⟨hop ▸ hline.eq, _, rfl⟩ }
  | uncollected | unwritten | stopped => cases hc

namespace Session

theorem frame_of_step_eq_ok {s : Session} {w : Word} {m : Machine ScriptedConsole} {c : Control}
    (hc : (s.step w m).result = .ok c) : ∃ d, s.instructions.decode? w = some d ∧
      Frame d s.basket (s.step w m).basket m (s.step w m).machine c := by
  obtain ⟨-, hstep⟩ | ⟨d, o, hd, heffect, hresult, hbasket, hmachine⟩ := s.step_cases w m
  · rw [hstep] at hc
    cases hc
  · have ho : o.result = .ok c := mapError_eq_ok_iff.1 (hresult ▸ hc)
    rw [ho, Machine.note_ok] at hmachine
    rw [hbasket, hmachine]
    exact ⟨d, hd, heffect.frame ho⟩

/-- What a step that succeeds may change is decided by its operation: the register of operand 0 but
never register 0, the four bytes at the effective address, the ingredient that is chosen, the
prompts and the input, the output, or the branches. So register 0 is zero in every run that starts
with all registers zero. -/
theorem step_frame (s : Session) (m : Machine ScriptedConsole) :
    (∀ w c, (s.step w m).result = .ok c → ∃ d, s.instructions.decode? w = some d ∧
      Frame d s.basket (s.step w m).basket m (s.step w m).machine c) ∧
    (m.registers = .zero → ∀ words, ∀ done ∈ s.run m words,
      done.machine.registers.toList[0]? = some 0#32) := by
  refine ⟨fun w c hc => frame_of_step_eq_ok hc, fun hm words => ?_⟩
  have hzero : m.registers.values[0]? = some 0#32 := by
    rw [hm]
    rfl
  have hrun := forall_mem_run (κ := ScriptedConsole)
    (I := fun _ m => m.registers.values[0]? = some 0#32)
    (P := fun done => done.machine.registers.values[0]? = some 0#32)
    (fun s m w h => (register_zero_of_step s w m).trans h)
    (fun s m w h => (register_zero_of_step s w m).trans h) words (s := s) hzero
  intro done hdone
  rw [RegisterFile.toList, Vector.getElem?_toList]
  exact hrun done hdone

/-- A register is stored in the last bytes of the address space, and then -1 is added to register
0. -/
theorem step_frame_store :
    ∃ s m, s = fresh (.ofOffers (ChefAssembly.instructionsFor
        [.storeWord, .assign .addImmediate])) {} ∧
      m = Machine.fresh 0xfffffffc#32 7 (ScriptedConsole.ofInput []) ∧
      (s.step 0xac1ffffc#32 m).result = .ok .next ∧
      (∃ d, s.instructions.decode? 0xac1ffffc#32 = some d ∧
        Frame d s.basket (s.step 0xac1ffffc#32 m).basket m (s.step 0xac1ffffc#32 m).machine
          .next) ∧
      m.registers = .zero ∧ ∀ done ∈ s.run m [0xac1ffffc#32, 0x2000ffff#32],
        done.machine.registers.toList[0]? = some 0#32 := by
  obtain ⟨s, hs⟩ : ∃ s, s = fresh (.ofOffers (ChefAssembly.instructionsFor
      [.storeWord, .assign .addImmediate])) {} := ⟨_, rfl⟩
  obtain ⟨m, hm⟩ : ∃ m, m = Machine.fresh 0xfffffffc#32 7 (ScriptedConsole.ofInput []) :=
    ⟨_, rfl⟩
  have hresult : (s.step 0xac1ffffc#32 m).result = .ok .next := by
    rw [hs, hm]
    decide +kernel
  have hzero : m.registers = .zero := by rw [hm]; rfl
  obtain ⟨hstep, hrun⟩ := step_frame s m
  exact ⟨s, m, hs, hm, hresult, hstep _ _ hresult, hzero, hrun hzero _⟩

end Session

end Success

end CookingIsa
