import Mathlib
import CookingIsa.Proofs.Except
import CookingIsa.Session

/-!
# What an operation does

An operation reads what it needs first and then does one thing, or stops. The ways in which it can
end are the constructors of `Operation.Effect`, and every outcome is one of them (`effect_run`). A
step is the effect of the operation that its word is decoded as, with the fault recorded if there is
one (`step_cases`).
-/

namespace CookingIsa

theorem Operands.register_eq_ok_iff {o : Operands} {i n : Nat} :
    o.register i = .ok n ↔ o.get? i = some (n : Int) := by
  unfold register
  rcases o.get? i with _ | (k | k)
  · simp
  · simp [Int.toNat?]
  · simp [Int.toNat?]

theorem RegisterFile.assign_eq_ok_iff {r r' : RegisterFile} {o : Operands} {w : Word} :
    r.assign o w = .ok r' ↔ ∃ n : Nat, o.get? 0 = some (n : Int) ∧ r.set? n w = some r' := by
  simp only [assign, bind_eq_ok_iff, Operands.register_eq_ok_iff]
  refine exists_congr fun n => and_congr_right fun _ => ?_
  rcases r.set? n w with _ | r₁ <;> simp

namespace Operation

variable {κ : Type} [Console κ]

/-- The lines that an operation writes. -/
inductive Writes (policy : Policy) (b : Basket) (r : RegisterFile) : Operation → String → Prop
  | dishes {argument : Word} (hselector : r.read policy.selectorRegister = .ok 1#32)
      (hargument : r.read policy.argumentRegister = .ok argument) :
      Writes policy b r hostCall s!"Serving {argument.toInt} dishes"
  | dish {argument : Word} (hselector : r.read policy.selectorRegister = .ok 4#32)
      (hargument : r.read policy.argumentRegister = .ok argument) :
      Writes policy b r hostCall s!"Serving dish: {argument.toInt}"
  | presentation {line : String} (hdish : b.dish policy.unchosen = .ok line) :
      Writes policy b r present line

/-- How the execution of an operation can end. -/
inductive Effect (policy : Policy) (o : Operands) (b : Basket) (m : Machine κ) :
    Operation → Outcome κ → Prop
  | assigned {c : Computation} {w : Word} {registers : RegisterFile}
      (hvalue : c.value policy.arithmetic m.registers m.memory o = .ok w)
      (hassign : m.registers.assign o w = .ok registers) :
      Effect policy o b m (assign c) (.next b { m with registers } [])
  | branched {w : Word} {target : Int} (hfirst : m.registers.source o 0 = .ok w)
      (hsecond : m.registers.source o 1 = .ok w) (htarget : o.immediate 2 = .ok target) :
      Effect policy o b m branchEqual ⟨.ok (.branch target), b,
        { m with branches := m.branches ++ [target] }, [.branchRequested target]⟩
  | passed {v w : Word} (hfirst : m.registers.source o 0 = .ok v)
      (hsecond : m.registers.source o 1 = .ok w) (hne : v ≠ w) :
      Effect policy o b m branchEqual (.next b m [])
  | ignored {selector : Word} (hselector : m.registers.read policy.selectorRegister = .ok selector)
      (hdishes : selector ≠ 1#32) (hdish : selector ≠ 4#32) :
      Effect policy o b m hostCall (.next b m [.hostCallIgnored selector.toInt])
  | stored {addr w : Word} {memory : Memory} (haddr : m.registers.effectiveAddress o = .ok addr)
      (hsource : m.registers.source o 0 = .ok w) (hstore : m.memory.store addr w = .ok memory) :
      Effect policy o b m storeWord (.next b { m with memory } [])
  | collected {i : Ingredient} {line : String} {console : κ}
      (hread : Console.readLine m.console i.prompt = (.ok line, console)) :
      Effect policy o b m (collect i)
        (.next (b.put i line) { m with console } [.collected i line])
  | written {op : Operation} {line : String} {console : κ}
      (hline : op.Writes policy b m.registers line)
      (hwrite : Console.writeLine m.console line = (.ok (), console)) :
      Effect policy o b m op (.next b { m with console } [])
  | uncollected {i : Ingredient} {e : ConsoleError} {console : κ}
      (hread : Console.readLine m.console i.prompt = (.error e, console)) :
      Effect policy o b m (collect i) ⟨.error (.fault (.console e)), b, { m with console }, []⟩
  | unwritten {op : Operation} {line : String} {e : ConsoleError} {console : κ}
      (hline : op.Writes policy b m.registers line)
      (hwrite : Console.writeLine m.console line = (.error e, console)) :
      Effect policy o b m op ⟨.error (.fault (.console e)), b, { m with console }, []⟩
  -- A collect has shown its prompt by the time it can fail, so it never stops like this.
  | stopped {op : Operation} {s : Stop} (hop : ∀ i, op ≠ collect i) :
      Effect policy o b m op (.stopped s b m)

variable {policy : Policy} {o : Operands} {b : Basket} {m : Machine κ}

theorem effect_writing {op : Operation} {line : String} (h : op.Writes policy b m.registers line) :
    Effect policy o b m op (.writing line b m) := by
  unfold Outcome.writing
  split
  · rename_i hwrite
    exact .unwritten h hwrite
  · rename_i hwrite
    exact .written h hwrite

theorem effect_runAssign (c : Computation) :
    Effect policy o b m (assign c) (runAssign c policy.arithmetic o b m) := by
  unfold runAssign
  split
  · exact .stopped (by simp)
  · rename_i registers h
    obtain ⟨w, hvalue, hassign⟩ := bind_eq_ok_iff.1 h
    exact .assigned hvalue hassign

theorem effect_runBranchEqual : Effect policy o b m branchEqual (runBranchEqual o b m) := by
  unfold runBranchEqual
  rcases hfirst : m.registers.source o 0 with e | v
  · exact .stopped (by simp)
  rcases hsecond : m.registers.source o 1 with e | w
  · exact .stopped (by simp)
  by_cases h : v = w
  · subst h
    rcases htarget : o.immediate 2 with e | target
    · simpa [bind, Except.bind] using .stopped (by simp)
    · simpa [bind, Except.bind, pure, Except.pure] using .branched hfirst hsecond htarget
  · simpa [bind, Except.bind, pure, Except.pure, h] using .passed hfirst hsecond h

theorem effect_runHostCall : Effect policy o b m hostCall (runHostCall policy b m) := by
  unfold runHostCall
  split
  · rename_i selector argument hselector hargument
    split_ifs with hdishes hdish
    · subst hdishes
      exact effect_writing (.dishes hselector hargument)
    · subst hdish
      exact effect_writing (.dish hselector hargument)
    · exact .ignored hselector hdishes hdish
  · exact .stopped (by simp)

theorem effect_runStoreWord : Effect policy o b m storeWord (runStoreWord o b m) := by
  simp only [runStoreWord]
  split
  · exact .stopped (by simp)
  · rename_i memory h
    obtain ⟨addr, haddr, h⟩ := bind_eq_ok_iff.1 h
    obtain ⟨w, hsource, h⟩ := bind_eq_ok_iff.1 h
    exact .stored haddr hsource (mapError_eq_ok_iff.1 h)

theorem effect_runCollect (i : Ingredient) :
    Effect policy o b m (collect i) (runCollect i b m) := by
  unfold runCollect
  split
  · rename_i hread
    exact .uncollected hread
  · rename_i hread
    exact .collected hread

theorem effect_runPresent : Effect policy o b m present (runPresent policy b m) := by
  unfold runPresent
  split
  · exact .stopped (by simp)
  · rename_i hdish
    exact effect_writing (.presentation hdish)

theorem effect_run (op : Operation) : Effect policy o b m op (op.run policy o b m) := by
  cases op with
  | assign c => exact effect_runAssign c
  | branchEqual => exact effect_runBranchEqual
  | hostCall => exact effect_runHostCall
  | storeWord => exact effect_runStoreWord
  | collect i => exact effect_runCollect i
  | present => exact effect_runPresent

end Operation

namespace Decoding

variable {κ : Type} [Console κ] (d : Decoding) (policy : Policy) (traced : Bool) (b : Basket)
  (m : Machine κ)

@[simp] theorem result_execute : (d.execute policy traced b m).result =
    (d.instruction.operation.run policy d.operands b m).result := by
  unfold execute
  split_ifs <;> rfl

@[simp] theorem basket_execute : (d.execute policy traced b m).basket =
    (d.instruction.operation.run policy d.operands b m).basket := by
  unfold execute
  split_ifs <;> rfl

@[simp] theorem machine_execute : (d.execute policy traced b m).machine =
    (d.instruction.operation.run policy d.operands b m).machine := by
  unfold execute
  split_ifs <;> rfl

/-- The record of a fault that the word has raised. -/
def record (f : Fault) : FaultRecord := ⟨f.kind, d.word, d.instruction.name, f.message⟩

end Decoding

namespace Machine

variable {κ : Type} (m : Machine κ) (d : Decoding) (result : Except Stop Control)

/-- The machine with the fault recorded, if a word ended in one. -/
def note : Except Stop Control → Machine κ
  | .error (.fault f) => { m with faults := m.faults ++ [d.record f] }
  | _ => m

@[simp] theorem registers_note : (m.note d result).registers = m.registers := by
  unfold note
  split <;> rfl

@[simp] theorem memory_note : (m.note d result).memory = m.memory := by
  unfold note
  split <;> rfl

@[simp] theorem console_note : (m.note d result).console = m.console := by
  unfold note
  split <;> rfl

@[simp] theorem branches_note : (m.note d result).branches = m.branches := by
  unfold note
  split <;> rfl

@[simp] theorem note_ok (c : Control) : m.note d (.ok c) = m := rfl

end Machine

namespace Step

variable {κ : Type} (s : Step κ) (d : Decoding) (o : Outcome κ)

@[simp] theorem result_ofOutcome : (ofOutcome d o).result = o.result.mapError .ofStop := rfl

@[simp] theorem basket_ofOutcome : (ofOutcome d o).basket = o.basket := rfl

@[simp] theorem result_recordFault : (s.recordFault d).result = s.result := by
  unfold recordFault
  split <;> rfl

@[simp] theorem basket_recordFault : (s.recordFault d).basket = s.basket := by
  unfold recordFault
  split <;> rfl

@[simp] theorem machine_recordFault_ofOutcome :
    ((ofOutcome d o).recordFault d).machine = o.machine.note d o.result := by
  rcases hr : o.result with (f | _) | c <;>
    simp [recordFault, ofOutcome, hr, Except.mapError, StepError.ofStop, Machine.note,
      Decoding.record]

end Step

namespace Session

variable {κ : Type} [Console κ]

/-- The step of a word that decodes runs its operation, and records the fault if that ended in
one. -/
theorem step_of_decode? {s : Session} {w : Word} {d : Decoding}
    (hd : s.instructions.decode? w = some d) (m : Machine κ) :
    let o := d.instruction.operation.run s.policy d.operands s.basket m
    (s.step w m).result = o.result.mapError .ofStop ∧ (s.step w m).basket = o.basket ∧
      (s.step w m).machine = o.machine.note d o.result := by
  simp [step, hd]

/-- A step does nothing if its word decodes as nothing, and otherwise has the effect of the
operation, with the fault recorded if that ended in one. -/
theorem step_cases (s : Session) (w : Word) (m : Machine κ) :
    (s.instructions.decode? w = none ∧ s.step w m = .noMatch w s.basket m) ∨
      ∃ d o, s.instructions.decode? w = some d ∧
        Operation.Effect s.policy d.operands s.basket m d.instruction.operation o ∧
        (s.step w m).result = o.result.mapError .ofStop ∧ (s.step w m).basket = o.basket ∧
        (s.step w m).machine = o.machine.note d o.result := by
  rcases hd : s.instructions.decode? w with _ | d
  · exact .inl ⟨rfl, by simp [step, hd]⟩
  · exact .inr ⟨d, _, rfl, Operation.effect_run _, step_of_decode? hd m⟩

end Session

end CookingIsa
