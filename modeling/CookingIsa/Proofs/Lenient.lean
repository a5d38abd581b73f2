import Mathlib
import CookingIsa.Proofs.Arithmetic
import CookingIsa.Proofs.Effect
import CookingIsa.Proofs.InBounds
import CookingIsa.Proofs.Run

/-!
# Lenient arithmetic extends strict arithmetic

The two kinds of arithmetic differ only where a result does not fit a register. So as long as no
strict result overflows and no sum to be halved does, a lenient session does in every step what a
strict one does (`run_lenient_eq_run_strict`). The addition of an immediate is strict in both and
may overflow.
-/

namespace CookingIsa

namespace Arithmetic

variable {a b : Word}

theorem resolve_lenient {overflows : Bool} {wrapped : Word}
    (h : resolve .strict overflows wrapped ≠ .error .overflow) :
    resolve .lenient overflows wrapped = resolve .strict overflows wrapped := by
  cases overflows with
  | false => rfl
  | true => exact absurd rfl h

theorem divide_lenient (h : divide .strict a b ≠ .error .overflow) :
    divide .lenient a b = divide .strict a b := by
  unfold divide at h ⊢
  split_ifs at h ⊢
  · rfl
  · exact resolve_lenient h

/-- Half of a sum that fits a register is the same whether the sum has more bits or not. -/
theorem average_lenient (hlow : -0x80000000 ≤ a.toInt + b.toInt)
    (hhigh : a.toInt + b.toInt < 0x80000000) : average .lenient a b = average .strict a b := by
  rw [average_lenient_eq, average_strict_eq, bmod_of_fits ⟨hlow, hhigh⟩]

end Arithmetic

namespace Computation

variable {r : RegisterFile} {m : Memory} {o : Operands}

theorem bind_congr_of_ne {x : Except Stop Word} {f g : Word → Except Stop Word} {e : Stop}
    (hfg : ∀ a, x = .ok a → f a ≠ .error e → g a = f a) (h : x >>= f ≠ .error e) :
    x >>= g = x >>= f := by
  rcases x with s | a
  · rfl
  · exact hfg a rfl h

theorem mapError_lenient {f : ArithmeticMode → Except Fault Word}
    (hf : f .strict ≠ .error .overflow → f .lenient = f .strict)
    (h : (f .strict).mapError Stop.fault ≠ .error (.fault .overflow)) :
    (f .lenient).mapError Stop.fault = (f .strict).mapError Stop.fault := by
  rw [hf]
  intro he
  rw [he] at h
  exact h rfl

theorem sources_lenient {f : ArithmeticMode → Word → Word → Except Fault Word}
    (hf : ∀ a b, f .strict a b ≠ .error .overflow → f .lenient a b = f .strict a b)
    (h : (do (f .strict (← r.source o 1) (← r.source o 2)).mapError .fault) ≠
      Except.error (Stop.fault .overflow)) :
    (do (f .lenient (← r.source o 1) (← r.source o 2)).mapError Stop.fault) =
      (do (f .strict (← r.source o 1) (← r.source o 2)).mapError Stop.fault) := by
  refine bind_congr_of_ne (fun a _ ha => ?_) h
  refine bind_congr_of_ne (fun b _ hb => ?_) ha
  exact mapError_lenient (f := fun mode => f mode a b) (hf a b) hb

theorem value_lenient (c : Computation)
    (hvalue : c ≠ .addImmediate → c.value .strict r m o ≠ .error (.fault .overflow))
    (hsum : c = .average → ∀ a b, r.source o 1 = .ok a → r.source o 2 = .ok b →
      -0x80000000 ≤ a.toInt + b.toInt ∧ a.toInt + b.toInt < 0x80000000) :
    c.value .lenient r m o = c.value .strict r m o := by
  cases c with
  | addImmediate | halve | zero | move | loadWord => rfl
  | add => exact sources_lenient (fun _ _ => Arithmetic.resolve_lenient) (hvalue (by decide))
  | subtract => exact sources_lenient (fun _ _ => Arithmetic.resolve_lenient) (hvalue (by decide))
  | multiply => exact sources_lenient (fun _ _ => Arithmetic.resolve_lenient) (hvalue (by decide))
  | divide => exact sources_lenient (fun _ _ => Arithmetic.divide_lenient) (hvalue (by decide))
  | average =>
    refine bind_congr_of_ne (fun a ha h => ?_) (hvalue (by decide))
    refine bind_congr_of_ne (fun b hb _ => ?_) h
    obtain ⟨hlow, hhigh⟩ := hsum rfl a b ha hb
    rw [Arithmetic.average_lenient hlow hhigh]
  | double =>
    refine bind_congr_of_ne (fun a _ h => ?_) (hvalue (by decide))
    exact mapError_lenient (f := fun mode => Arithmetic.double mode a) Arithmetic.resolve_lenient h

end Computation

namespace Operation

variable {κ : Type} [Console κ] {policy : Policy} {o : Operands} {b : Basket} {m : Machine κ}

theorem run_lenient (op : Operation)
    (hresult : op ≠ assign .addImmediate →
      (op.run { policy with arithmetic := .strict } o b m).result ≠ .error (.fault .overflow))
    (hsum : op = assign .average → ∀ x y, m.registers.source o 1 = .ok x →
      m.registers.source o 2 = .ok y →
        -0x80000000 ≤ x.toInt + y.toInt ∧ x.toInt + y.toInt < 0x80000000) :
    op.run { policy with arithmetic := .lenient } o b m =
      op.run { policy with arithmetic := .strict } o b m := by
  cases op with
  | assign c =>
    have hvalue : c.value .lenient m.registers m.memory o =
        c.value .strict m.registers m.memory o := by
      refine c.value_lenient (fun hc hover => ?_) fun hc => hsum (by rw [hc])
      refine hresult (by simpa using hc) ?_
      simp [run, runAssign, hover, bind, Except.bind, Outcome.stopped]
    simp only [run, runAssign, hvalue]
  | branchEqual | hostCall | storeWord | collect | present => rfl

end Operation

namespace Session

variable {κ : Type} [Console κ]

def withArithmetic (s : Session) (mode : ArithmeticMode) : Session :=
  { s with policy := { s.policy with arithmetic := mode } }

/-- A step in which nothing overflows that lenient arithmetic would wrap: no result, and no sum that
is halved. -/
structure Exact (s : Session) (w : Word) (m : Machine κ) : Prop where
  result : (s.step w m).result = .error (.fault .overflow) →
    ∃ d, s.instructions.decode? w = some d ∧ d.instruction.operation = .assign .addImmediate
  sum : ∀ d, s.instructions.decode? w = some d → d.instruction.operation = .assign .average →
    ∀ x y, m.registers.source d.operands 1 = .ok x → m.registers.source d.operands 2 = .ok y →
      -0x80000000 ≤ x.toInt + y.toInt ∧ x.toInt + y.toInt < 0x80000000

theorem step_lenient {s : Session} {w : Word} {m : Machine κ}
    (h : (s.withArithmetic .strict).Exact w m) :
    (s.withArithmetic .lenient).step w m = (s.withArithmetic .strict).step w m := by
  rcases hd : s.instructions.decode? w with _ | d
  · simp only [step, withArithmetic, hd]
  have hstep : ∀ mode, (s.withArithmetic mode).step w m = (Step.ofOutcome d
      (d.execute { s.policy with arithmetic := mode } s.traced s.basket m)).recordFault d := by
    intro mode
    simp only [step, withArithmetic, hd]
  have hrun : d.instruction.operation.run { s.policy with arithmetic := .lenient } d.operands
      s.basket m = d.instruction.operation.run { s.policy with arithmetic := .strict } d.operands
      s.basket m := Operation.run_lenient _ (fun hop hover => ?_) (h.sum d hd)
  · have hexecute : d.execute { s.policy with arithmetic := .lenient } s.traced s.basket m =
        d.execute { s.policy with arithmetic := .strict } s.traced s.basket m := by
      unfold Decoding.execute
      rw [hrun]
    rw [hstep, hstep, hexecute]
  · have hresult : ((s.withArithmetic .strict).step w m).result =
        .error (.fault .overflow) := by
      simp [hstep, hover, Except.mapError, StepError.ofStop]
    obtain ⟨d', hd', hop'⟩ := h.result hresult
    obtain rfl : d = d' := Option.some.inj (hd.symm.trans hd')
    exact hop hop'

theorem run_lenient : ∀ (words : List Word) (s : Session) (m : Machine κ),
    (s.withArithmetic .strict).AtEachStep Exact m words →
      (s.withArithmetic .lenient).run m words = (s.withArithmetic .strict).run m words
  | [], _, _, _ => rfl
  | w :: words, s, m, ⟨hstep, hrest⟩ => by
    have hw := step_lenient hstep
    simp only [run]
    rw [hw]
    have ih := run_lenient words (s.after ((s.withArithmetic .strict).step w m))
      ((s.withArithmetic .strict).step w m).machine hrest
    rw [List.cons.injEq]
    exact ⟨rfl, ih⟩

/-- Of two sessions that differ in their arithmetic alone, the lenient one takes the steps of the
strict one, with the same results and the same basket and machine after each, as long as nothing
overflows in the strict one but the addition of an immediate. -/
theorem run_lenient_eq_run_strict {instructions : InstructionSet} {config : Config}
    {strict lenient : Session}
    (hstrict : create instructions { config with arithmetic := .strict } = .ok strict)
    (hlenient : create instructions { config with arithmetic := .lenient } = .ok lenient)
    (b : Basket) (m : Machine κ) (words : List Word)
    (h : (strict.withBasket b).AtEachStep Exact m words) :
    (lenient.withBasket b).run m words = (strict.withBasket b).run m words := by
  obtain ⟨-, hs⟩ := (create_eq_ok_iff _ _ _).1 hstrict
  obtain ⟨-, hl⟩ := (create_eq_ok_iff _ _ _).1 hlenient
  have harithmetic : lenient.withBasket b = (strict.withBasket b).withArithmetic .lenient := by
    rw [hs, hl]
    rfl
  have hself : (strict.withBasket b).withArithmetic .strict = strict.withBasket b := by
    rw [hs]
    rfl
  rw [← hself] at h
  rw [harithmetic, run_lenient words _ m h, hself]

theorem exact_of_addImmediate {s : Session} {w : Word} {m : Machine κ} {d : Decoding}
    (hd : s.instructions.decode? w = some d)
    (hop : d.instruction.operation = .assign .addImmediate) : s.Exact w m where
  result _ := ⟨d, hd, hop⟩
  sum d' hd' hop' := by
    obtain rfl : d = d' := Option.some.inj (hd.symm.trans hd')
    rw [hop] at hop'
    cases hop'

/-- The largest and the least number are averaged, whose sum is -1, and then one is added to the
largest as an immediate, which is a fault in both modes. -/
theorem run_lenient_eq_run_strict_average :
    ∃ (instructions : InstructionSet) (strict lenient : Session) (m : Machine ScriptedConsole)
        (words : List Word),
      instructions = .ofOffers (ChefAssembly.instructionsFor
        [.assign .average, .assign .addImmediate]) ∧
      m.registers = ⟨(RegisterFile.zero.values.set 9 0x7fffffff#32).set 10 0x80000000#32⟩ ∧
      words = [0xbd2a4000#32, 0x21280001#32] ∧
      create instructions { arithmetic := .strict } = .ok strict ∧
      create instructions { arithmetic := .lenient } = .ok lenient ∧
      (strict.withBasket .empty).AtEachStep Exact m words ∧
      ((strict.withBasket .empty).run m words).map Step.result =
        [.ok .next, .error (.fault .overflow)] ∧
      (lenient.withBasket .empty).run m words = (strict.withBasket .empty).run m words := by
  obtain ⟨s, hs⟩ : ∃ s, s = fresh (.ofOffers (ChefAssembly.instructionsFor
      [.assign .average, .assign .addImmediate])) {} := ⟨_, rfl⟩
  obtain ⟨m, hm⟩ : ∃ m : Machine ScriptedConsole, m =
    ⟨⟨(RegisterFile.zero.values.set 9 0x7fffffff#32).set 10 0x80000000#32⟩, .zero 0#32 0,
      .ofInput [], [], []⟩ := ⟨_, rfl⟩
  have hsources : (s.instructions.decode? 0xbd2a4000#32).map
      (fun d => (m.registers.source d.operands 1, m.registers.source d.operands 2)) =
        some (.ok 0x7fffffff#32, .ok 0x80000000#32) := by
    rw [hs, hm]
    decide +kernel
  have hseason : (s.instructions.decode? 0x21280001#32).map
      (fun d => d.instruction.operation) = some (.assign .addImmediate) := by
    rw [hs]
    decide +kernel
  have hresults : (s.run m [0xbd2a4000#32, 0x21280001#32]).map Step.result =
      [.ok .next, .error (.fault .overflow)] := by
    rw [hs, hm]
    decide +kernel
  have haverage : s.Exact 0xbd2a4000#32 m := by
    refine ⟨fun h => ?_, fun d hd _ x y hx hy => ?_⟩
    · rw [run, List.map_cons, List.cons.injEq, h] at hresults
      cases hresults.1
    · rw [hd, Option.map_some, Option.some.injEq, Prod.mk.injEq] at hsources
      obtain rfl := Except.ok.inj (hx.symm.trans hsources.1)
      obtain rfl := Except.ok.inj (hy.symm.trans hsources.2)
      decide
  obtain ⟨d, hd, hop⟩ := Option.map_eq_some_iff.1 hseason
  have hexact : s.AtEachStep Exact m [0xbd2a4000#32, 0x21280001#32] := by
    refine ⟨haverage, exact_of_addImmediate ?_ hop, trivial⟩
    rw [instructions_after]
    exact hd
  have hstrict : create s.instructions { arithmetic := .strict } = .ok s := by
    rw [hs]
    exact create_eq_fresh _ rfl
  have hlenient := @create_eq_fresh s.instructions { arithmetic := .lenient } rfl
  have hbasket : s.withBasket .empty = s := by rw [hs]; rfl
  rw [← hbasket] at hexact hresults
  exact ⟨_, s, _, m, _, by rw [hs]; rfl, by rw [hm], rfl, hstrict, hlenient, hexact, hresults,
    @run_lenient_eq_run_strict _ _ _ {} _ _ hstrict hlenient .empty m _ hexact⟩

end Session

end CookingIsa
