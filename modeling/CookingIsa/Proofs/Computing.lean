import Mathlib
import CookingIsa.Proofs.Arithmetic
import CookingIsa.Proofs.LatestStore

/-!
# What arithmetic operations leave in their register

An arithmetic operation works on the numbers that it finds in its source registers, also if it then
writes to one of them. Of the exact result for these numbers it makes what the mode of arithmetic
makes of it (`value_of_mustFit`, `value_of_not_mustFit`), and so a step of it faults exactly if
the result must fit a word and does not (`step_computes`).
-/

namespace CookingIsa

/-- The register that the operand at index `i` names has the number `v`. -/
def RegisterFile.Holds (r : RegisterFile) (o : Operands) (i : Nat) (v : Int) : Prop :=
  ∃ (n : Nat) (w : Word), o.get? i = some (n : Int) ∧ r.get? n = some w ∧ w.toInt = v

namespace Computation

open Arithmetic

/-- The numbers that an arithmetic operation works on. There is one alone if a register is doubled
or halved. -/
def WorksOn (r : RegisterFile) (o : Operands) (a b : Int) : Computation → Prop
  | addImmediate => r.Holds o 1 a ∧ o.get? 2 = some b
  | double => r.Holds o 0 a
  | halve => r.Holds o 0 a
  | zero => False
  | move => False
  | loadWord => False
  | _ => r.Holds o 1 a ∧ r.Holds o 2 b

/-- The exact result for the numbers that it works on, if the operation is an arithmetic one. -/
def result? (a b : Int) : Computation → Option Int
  | addImmediate => some (a + b)
  | add => some (a + b)
  | subtract => some (a - b)
  | multiply => some (a * b)
  | divide => some (a.tdiv b)
  | average => some ((a + b).tdiv 2)
  | double => some (2 * a)
  | halve => some (a.tdiv 2)
  | zero => none
  | move => none
  | loadWord => none

/-- What is left in a word of a result that need not fit. -/
def wrapped (a b x : Int) (c : Computation) : Int :=
  if c = average then ((a + b).bmod (2 ^ 32)).tdiv 2 else x.bmod (2 ^ 32)

/-- The operations that have an exact result. -/
def arithmetic : List Computation :=
  [addImmediate, add, subtract, multiply, divide, average, double, halve]

/-- A result that does not fit a word is a fault. -/
def MustFit (mode : ArithmeticMode) (c : Computation) : Prop := c = addImmediate ∨ mode = .strict

variable {c : Computation} {mode : ArithmeticMode} {r : RegisterFile} {m : Memory} {o : Operands}
  {a b x : Int}

theorem exists_source_of_holds {i : Nat} {v : Int} (h : r.Holds o i v) :
    ∃ w : Word, r.source o i = .ok w ∧ w.toInt = v := by
  obtain ⟨n, w, hn, hw, hv⟩ := h
  exact ⟨w, RegisterFile.source_eq_ok_iff.2 ⟨n, hn, hw⟩, hv⟩

theorem value_divide_zero (h : WorksOn r o a 0 divide) :
    divide.value mode r m o = .error (.fault .divideByZero) := by
  obtain ⟨v, hv, -⟩ := exists_source_of_holds h.1
  obtain ⟨w, hw, hzero⟩ := exists_source_of_holds h.2
  simp only [value, hv, hw, bind, Except.bind, divide_zero hzero]
  rfl

/-- The value of an arithmetic operation is its exact result, as the mode of arithmetic has it. Only
half a sum in lenient arithmetic is not got from the exact result. -/
theorem value_eq (hwork : c.WorksOn r o a b) (hexact : c.result? a b = some x)
    (hzero : ¬ (c = divide ∧ b = 0)) (himm : c = addImmediate → Fits b) :
    c.value mode r m o = (settle (if c = addImmediate then .strict else mode)
      (if mode = .lenient ∧ c = average then ((a + b).bmod (2 ^ 32)).tdiv 2 else x)).mapError
        .fault := by
  cases c with
  | zero | move | loadWord => cases hexact
  | addImmediate =>
    obtain ⟨v, hv, rfl⟩ := exists_source_of_holds hwork.1
    cases hexact
    simp [value, hv, Operands.immediate, hwork.2, bind, Except.bind, add_eq,
      toInt_ofInt_of_fits (himm rfl)]
  | double =>
    obtain ⟨v, hv, rfl⟩ := exists_source_of_holds hwork
    cases hexact
    simp [value, hv, bind, Except.bind, double_eq]
  | halve =>
    obtain ⟨v, hv, rfl⟩ := exists_source_of_holds hwork
    cases hexact
    simp [value, hv, bind, Except.bind, pure, Except.pure, halve_eq,
      settle_of_fits (fits_halve (fits_toInt v)), Except.mapError]
  | add | subtract | multiply =>
    obtain ⟨v, hv, rfl⟩ := exists_source_of_holds hwork.1
    obtain ⟨w, hw, rfl⟩ := exists_source_of_holds hwork.2
    cases hexact
    simp [value, hv, hw, bind, Except.bind, add_eq, subtract_eq, multiply_eq]
  | divide =>
    obtain ⟨v, hv, rfl⟩ := exists_source_of_holds hwork.1
    obtain ⟨w, hw, rfl⟩ := exists_source_of_holds hwork.2
    cases hexact
    simp [value, hv, hw, bind, Except.bind, divide_eq (fun h => hzero ⟨rfl, h⟩)]
  | average =>
    obtain ⟨v, hv, rfl⟩ := exists_source_of_holds hwork.1
    obtain ⟨w, hw, rfl⟩ := exists_source_of_holds hwork.2
    cases hexact
    cases mode with
    | strict =>
      simp [value, hv, hw, bind, Except.bind, pure, Except.pure, average_strict_eq,
        settle_of_fits (fits_average v w), Except.mapError]
    | lenient =>
      simp [value, hv, hw, bind, Except.bind, pure, Except.pure, average_lenient_eq, settle,
        Except.mapError]

theorem value_of_mustFit (hwork : c.WorksOn r o a b) (hexact : c.result? a b = some x)
    (hzero : ¬ (c = divide ∧ b = 0)) (himm : c = addImmediate → Fits b) (hmust : c.MustFit mode) :
    c.value mode r m o = (settle .strict x).mapError .fault := by
  rw [value_eq hwork hexact hzero himm]
  rcases hmust with rfl | rfl <;> simp

theorem value_of_not_mustFit (hwork : c.WorksOn r o a b) (hexact : c.result? a b = some x)
    (hzero : ¬ (c = divide ∧ b = 0)) (himm : c = addImmediate → Fits b) (hmust : ¬ c.MustFit mode) :
    c.value mode r m o = .ok (BitVec.ofInt 32 (wrapped a b x c)) := by
  obtain ⟨hne, hmode⟩ := not_or.1 hmust
  obtain rfl : mode = .lenient := by
    cases mode with
    | strict => exact absurd rfl hmode
    | lenient => rfl
  rw [value_eq hwork hexact hzero himm, if_neg hne, settle_lenient, wrapped, Except.mapError]
  by_cases haverage : c = average
  · rw [if_pos ⟨rfl, haverage⟩, if_pos haverage]
  · rw [if_neg fun h => haverage h.2, if_neg haverage, ofInt_bmod]

theorem fits_wrapped (a b x : Int) (c : Computation) : Fits (c.wrapped a b x) := by
  unfold wrapped
  split_ifs
  · exact fits_halve (fits_bmod _)
  · exact fits_bmod x

theorem fits_result (hwork : c.WorksOn r o a b) (hexact : c.result? a b = some x)
    (hc : c = average ∨ c = halve) : Fits x := by
  rcases hc with rfl | rfl
  · obtain ⟨⟨-, v, -, -, rfl⟩, -, w, -, -, rfl⟩ := hwork
    cases hexact
    exact fits_average v w
  · obtain ⟨-, v, -, -, rfl⟩ := hwork
    cases hexact
    exact fits_halve (fits_toInt v)

theorem exists_result (hc : c ∈ arithmetic) (a b : Int) : ∃ x, c.result? a b = some x := by
  cases c with
  | zero | move | loadWord => simp [arithmetic] at hc
  | addImmediate | add | subtract | multiply | divide | average | double | halve => exact ⟨_, rfl⟩

theorem exists_holds {op : Operation} (h : op.Takes o) (r : RegisterFile) {j : Nat}
    (hj : j < op.arity) (hreg : ¬ op.layout.IsImmediate j) : ∃ v, r.Holds o j v := by
  obtain ⟨n, hn, hlt⟩ := h.exists_register hj hreg
  obtain ⟨w, hw⟩ := Option.isSome_iff_exists.1 (r.isSome_get? hlt)
  exact ⟨_, n, w, Operands.register_eq_ok_iff.1 hn, hw, rfl⟩

/-- Decoded operands name numbers to work on, and an immediate is always one that fits a word. -/
theorem exists_worksOn (h : (Operation.assign c).Takes o) (r : RegisterFile)
    (hc : c ∈ arithmetic) : ∃ a b, c.WorksOn r o a b ∧ (c = addImmediate → Fits b) := by
  cases c with
  | zero | move | loadWord => simp [arithmetic] at hc
  | addImmediate =>
    obtain ⟨a, ha⟩ := exists_holds h r (j := 1) (by decide) (by decide)
    obtain ⟨b, hb⟩ := h.exists_get? (j := 2) (by decide)
    obtain ⟨hlow, hhigh⟩ : -0x8000 ≤ b ∧ b < 0x8000 := h.admits 2 b hb
    exact ⟨a, b, ⟨ha, hb⟩, fun _ => ⟨by omega, by omega⟩⟩
  | double | halve =>
    obtain ⟨a, ha⟩ := exists_holds h r (j := 0) (by decide) (by decide)
    exact ⟨a, 0, ha, nofun⟩
  | add | subtract | multiply | divide | average =>
    obtain ⟨a, ha⟩ := exists_holds h r (j := 1) (by decide) (by decide)
    obtain ⟨b, hb⟩ := exists_holds h r (j := 2) (by decide) (by decide)
    exact ⟨a, b, ⟨ha, hb⟩, nofun⟩

end Computation

open Arithmetic (Fits)

/-- The step succeeds and leaves the number in the register that operand 0 names, unless that is
register 0. -/
def Step.Leaves {κ : Type} (done : Step κ) (o : Operands) (v : Int) : Prop :=
  done.result = .ok .next ∧ (o.get? 0 ≠ some 0 → done.machine.registers.Holds o 0 v)

/-- What a step of an arithmetic operation on `a` and `b` does whose exact result is `x`. -/
structure Step.Computes {κ : Type} (done : Step κ) (mode : ArithmeticMode) (c : Computation)
    (o : Operands) (a b x : Int) : Prop where
  divideByZero : c = .divide → b = 0 → done.result = .error (.fault .divideByZero)
  overflow_iff : ¬ (c = .divide ∧ b = 0) → c.MustFit mode →
    (done.result = .error (.fault .overflow) ↔ ¬ Fits x)
  exact : ¬ (c = .divide ∧ b = 0) → c.MustFit mode → Fits x → done.Leaves o x
  wrapped : ¬ (c = .divide ∧ b = 0) → ¬ c.MustFit mode → done.Leaves o (c.wrapped a b x)
  faultless : c = .average ∨ c = .halve → done.result = .ok .next

namespace Session

variable {κ : Type} [Console κ] {s : Session} {w : Word} {d : Decoding} {m : Machine κ}
  {c : Computation}

theorem step_of_value_error (hd : s.instructions.decode? w = some d)
    (hop : d.instruction.operation = .assign c) {f : Fault}
    (hvalue : c.value s.policy.arithmetic m.registers m.memory d.operands = .error (.fault f)) :
    (s.step w m).result = .error (.fault f) := by
  obtain ⟨hresult, -, -⟩ := step_of_decode? hd m
  rw [hresult, hop]
  simp [Operation.run, Operation.runAssign, hvalue, bind, Except.bind, Outcome.stopped,
    Except.mapError, StepError.ofStop]

theorem step_of_value_ok (hd : s.instructions.decode? w = some d)
    (hop : d.instruction.operation = .assign c) {v : Word}
    (hvalue : c.value s.policy.arithmetic m.registers m.memory d.operands = .ok v) :
    (s.step w m).Leaves d.operands v.toInt := by
  have hpos : 0 < d.instruction.operation.arity := by
    rw [hop]
    cases c <;> decide
  obtain ⟨n, -, hn, hlt, -⟩ := exists_source_of_decode? hd hpos (by decide) m.registers
  obtain ⟨registers, hset⟩ := m.registers.exists_set? hlt v
  have hassign := RegisterFile.assign_eq_ok_iff.2 ⟨n, hn, hset⟩
  obtain ⟨hresult, -, hmachine⟩ := step_of_decode? hd m
  have hrun : Operation.runAssign c s.policy.arithmetic d.operands s.basket m =
      .next s.basket { m with registers } [] := by
    simp [Operation.runAssign, hvalue, hassign, bind, Except.bind]
  rw [hop, Operation.run, hrun] at hresult hmachine
  refine ⟨hresult, fun hne => ⟨n, v, hn, ?_, rfl⟩⟩
  have hget := RegisterFile.get?_of_set? hset n
  rw [if_pos ⟨rfl, fun hzero => hne (by rw [hn, hzero]; rfl)⟩] at hget
  rw [hmachine, Machine.registers_note]
  exact hget

/-- A result that must fit is left if it does, and is a fault otherwise. -/
theorem step_of_settle (hd : s.instructions.decode? w = some d)
    (hop : d.instruction.operation = .assign c) {x : Int}
    (hvalue : c.value s.policy.arithmetic m.registers m.memory d.operands =
      (Arithmetic.settle .strict x).mapError .fault) :
    (Fits x → (s.step w m).Leaves d.operands x) ∧
      (¬ Fits x → (s.step w m).result = .error (.fault .overflow)) := by
  refine ⟨fun hfits => ?_, fun hfits => ?_⟩
  · rw [Arithmetic.settle_of_fits hfits] at hvalue
    have hleaves := step_of_value_ok hd hop hvalue
    rwa [Arithmetic.toInt_ofInt_of_fits hfits] at hleaves
  · rw [Arithmetic.settle, if_pos ⟨rfl, hfits⟩] at hvalue
    exact step_of_value_error hd hop hvalue

/-- The step of an arithmetic operation is told by the numbers that it works on, which it reads
before it writes, and their exact result. A division by zero is a fault in both modes. Apart from
that there is a fault exactly if the result must fit a word and does not, and otherwise the register
of operand 0 has the result, or what is left of it in a word. -/
theorem step_computes (s : Session) {w : Word} {d : Decoding}
    (hd : s.instructions.decode? w = some d) {c : Computation}
    (hop : d.instruction.operation = .assign c) (hc : c ∈ Computation.arithmetic)
    (m : Machine κ) :
    ∃ a b x, c.WorksOn m.registers d.operands a b ∧ c.result? a b = some x ∧
      (s.step w m).Computes s.policy.arithmetic c d.operands a b x := by
  have htakes := s.instructions.takes_of_decode? hd
  rw [hop] at htakes
  obtain ⟨a, b, hwork, himm⟩ := Computation.exists_worksOn htakes m.registers hc
  obtain ⟨x, hexact⟩ := Computation.exists_result hc a b
  have hfit := fun hzero hmust => step_of_settle hd hop
    (Computation.value_of_mustFit (m := m.memory) hwork hexact hzero himm hmust)
  have hwrapped : ¬ (c = .divide ∧ b = 0) → ¬ c.MustFit s.policy.arithmetic →
      (s.step w m).Leaves d.operands (c.wrapped a b x) := by
    intro hzero hmust
    have hvalue := Computation.value_of_not_mustFit (m := m.memory) hwork hexact hzero himm hmust
    have hleaves := step_of_value_ok hd hop hvalue
    rwa [Arithmetic.toInt_ofInt_of_fits (c.fits_wrapped a b x)] at hleaves
  refine ⟨a, b, x, hwork, hexact, ?_, fun hzero hmust => ⟨fun h hfits => ?_, (hfit hzero hmust).2⟩,
    fun hzero hmust => (hfit hzero hmust).1, hwrapped, fun hfaultless => ?_⟩
  · rintro rfl rfl
    exact step_of_value_error hd hop (Computation.value_divide_zero hwork)
  · rw [((hfit hzero hmust).1 hfits).1] at h
    cases h
  · have hzero : ¬ (c = .divide ∧ b = 0) := by
      rintro ⟨rfl, -⟩
      simp at hfaultless
    by_cases hmust : c.MustFit s.policy.arithmetic
    · exact ((hfit hzero hmust).1 (Computation.fits_result hwork hexact hfaultless)).1
    · exact (hwrapped hzero hmust).1

/-- The largest number and one are averaged in lenient arithmetic, into the register of the first.
The exact result is 2 ^ 30, but the sum has wrapped around before it is halved. -/
theorem step_computes_average :
    ∃ (s : Session) (m : Machine ScriptedConsole) (d : Decoding),
      s.policy.arithmetic = .lenient ∧
      m.registers = ⟨(RegisterFile.zero.values.set 8 0x7fffffff#32).set 9 1#32⟩ ∧
      s.instructions.decode? 0xbd094000#32 = some d ∧
      d.instruction.operation = .assign .average ∧ .average ∈ Computation.arithmetic ∧
      d.operands.get? 0 = some 8 ∧
      Computation.average.WorksOn m.registers d.operands 0x7fffffff 1 ∧
      Computation.average.result? 0x7fffffff 1 = some 0x40000000 ∧
      (s.step 0xbd094000#32 m).Computes .lenient .average d.operands 0x7fffffff 1 0x40000000 ∧
      (s.step 0xbd094000#32 m).machine.registers.Holds d.operands 0 (-0x40000000) := by
  obtain ⟨s, hs⟩ : ∃ s, s = fresh (.ofOffers (ChefAssembly.instructionsFor [.assign .average]))
      { arithmetic := .lenient } := ⟨_, rfl⟩
  obtain ⟨m, hm⟩ : ∃ m : Machine ScriptedConsole, m =
    ⟨⟨(RegisterFile.zero.values.set 8 0x7fffffff#32).set 9 1#32⟩, .zero 0#32 0, .ofInput [], [],
      []⟩ := ⟨_, rfl⟩
  have hmode : s.policy.arithmetic = .lenient := by rw [hs]; rfl
  have hdecode : (s.instructions.decode? 0xbd094000#32).map (fun d => (d.instruction.operation,
      d.operands.get? 0, m.registers.source d.operands 1, m.registers.source d.operands 2)) =
      some (.assign .average, some 8, .ok 0x7fffffff#32, .ok 1#32) := by
    rw [hs, hm]
    decide +kernel
  obtain ⟨d, hd, hd'⟩ := Option.map_eq_some_iff.1 hdecode
  simp only [Prod.mk.injEq] at hd'
  obtain ⟨hop, hdest, hfirst, hsecond⟩ := hd'
  have hmem : Computation.average ∈ Computation.arithmetic := by decide
  obtain ⟨a, b, x, hwork, hexact, hcomputes⟩ := step_computes s hd hop hmem m
  obtain ⟨v, hv, rfl⟩ := Computation.exists_source_of_holds hwork.1
  obtain ⟨w, hw, rfl⟩ := Computation.exists_source_of_holds hwork.2
  obtain rfl := Except.ok.inj (hv.symm.trans hfirst)
  obtain rfl := Except.ok.inj (hw.symm.trans hsecond)
  cases hexact
  rw [hmode] at hcomputes
  have hleaves := hcomputes.wrapped (by decide) (by simp [Computation.MustFit])
  exact ⟨s, m, d, hmode, by rw [hm], hd, hop, hmem, hdest, hwork, rfl, hcomputes,
    hleaves.2 (by rw [hdest]; decide)⟩

end Session

end CookingIsa
