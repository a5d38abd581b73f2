import Mathlib
import CookingIsa.Proofs.InBounds

/-!
# Tracing does not disturb execution

A traced session emits one event more for every word that decodes, directly after that of its
decoding (`step_of_decode?_eq`). Without those events the step of a traced session is that of the
same session untraced (`untraced_step`), so the two go the same way through any words
(`run_traced`).
-/

namespace CookingIsa

namespace Event

/-- What a word was decoded as, if this is what the event says. -/
def decoded? : Event → Option Decoding
  | decoded d => some d
  | _ => none

/-- What is about to be executed, if this is what the event says. -/
def executing? : Event → Option Decoding
  | executing d => some d
  | _ => none

/-- The event tells of an operation, and neither of decoding its word nor of starting it. -/
def OfOperation (e : Event) : Prop := e.decoded? = none ∧ e.executing? = none

/-- The events that are left without tracing. -/
def untraced (events : List Event) : List Event := events.filter fun e => e.executing?.isNone

theorem untraced_eq_self {events : List Event} (h : ∀ e ∈ events, e.OfOperation) :
    untraced events = events :=
  List.filter_eq_self.2 fun e he => by rw [(h e he).2, Option.isNone_none]

theorem untraced_traced (d : Decoding) {later : List Event} (h : ∀ e ∈ later, e.OfOperation) :
    untraced (.decoded d :: .executing d :: later) = .decoded d :: later := by
  have hcons : untraced (.decoded d :: .executing d :: later) = .decoded d :: untraced later := rfl
  rw [hcons, untraced_eq_self h]

end Event

theorem Operation.Effect.ofOperation {κ : Type} [Console κ] {policy : Policy} {op : Operation}
    {o : Operands} {b : Basket} {m : Machine κ} {outcome : Outcome κ}
    (h : Effect policy o b m op outcome) : ∀ e ∈ outcome.events, e.OfOperation := by
  cases h <;> simp [Outcome.next, Outcome.stopped, Event.OfOperation, Event.decoded?,
    Event.executing?]

namespace Decoding

variable (d : Decoding)

/-- The event of a fault, if a word ended in one. -/
def report : Except Stop Control → List Event
  | .error (.fault f) => [.faultRaised (d.record f)]
  | _ => []

theorem ofOperation_of_mem_report {result : Except Stop Control} :
    ∀ e ∈ d.report result, e.OfOperation := by
  rcases result with (f | _) | c <;> simp [report, Event.OfOperation, Event.decoded?,
    Event.executing?]

end Decoding

namespace Step

variable {κ : Type}

/-- The step without the events of tracing. -/
def untraced (done : Step κ) : Step κ := { done with events := Event.untraced done.events }

/-- The events of steps one after another. -/
def eventsOf (steps : List (Step κ)) : List Event := steps.flatMap events

theorem eventsOf_map_untraced (steps : List (Step κ)) :
    eventsOf (steps.map untraced) = Event.untraced (eventsOf steps) := by
  simp only [eventsOf, Event.untraced, List.flatMap_map, List.filter_flatMap, untraced]

/-- The events of a traced step. There are none if its word decodes as nothing. Otherwise the word
is decoded, then it is about to be executed, and all that follows tells of its operation. -/
structure Traced (decoding? : Option Decoding) (done : Step κ) : Prop where
  events_eq_nil : decoding? = none → done.events = []
  events_eq : ∀ d, decoding? = some d → ∃ later,
    done.events = .decoded d :: .executing d :: later ∧ ∀ e ∈ later, e.OfOperation

theorem recordFault_ofOutcome (d : Decoding) (o : Outcome κ) :
    (ofOutcome d o).recordFault d = ⟨o.result.mapError .ofStop, o.basket,
      o.machine.note d o.result, .decoded d :: (o.events ++ d.report o.result)⟩ := by
  rcases o with ⟨(f | _) | c, b, m, events⟩
  · rfl
  · simp [recordFault, ofOutcome, Except.mapError, StepError.ofStop, Machine.note, Decoding.report]
  · simp [recordFault, ofOutcome, Except.mapError, Machine.note, Decoding.report]

end Step

namespace Session

variable {κ : Type} [Console κ]

def withTracing (s : Session) (traced : Bool) : Session := { s with traced }

/-- The step of a word that decodes, whole. Tracing puts one event in the second place and is seen
nowhere else. -/
theorem step_of_decode?_eq {s : Session} {w : Word} {d : Decoding}
    (hd : s.instructions.decode? w = some d) (m : Machine κ) :
    let o := d.instruction.operation.run s.policy d.operands s.basket m
    s.step w m = ⟨o.result.mapError .ofStop, o.basket, o.machine.note d o.result,
      .decoded d :: ((if s.traced then [.executing d] else []) ++
        (o.events ++ d.report o.result))⟩ := by
  simp only [step, hd, Step.recordFault_ofOutcome, Decoding.execute]
  split_ifs <;> rfl

theorem ofOperation_of_decode? {s : Session} {d : Decoding} (m : Machine κ) :
    let o := d.instruction.operation.run s.policy d.operands s.basket m
    ∀ e ∈ o.events ++ d.report o.result, e.OfOperation := by
  intro o e he
  rcases List.mem_append.1 he with he | he
  · exact (Operation.effect_run _).ofOperation e he
  · exact d.ofOperation_of_mem_report e he

theorem untraced_step (s : Session) (w : Word) (m : Machine κ) :
    ((s.withTracing true).step w m).untraced = (s.withTracing false).step w m := by
  rcases hd : s.instructions.decode? w with _ | d
  · simp only [step, withTracing, hd]
    rfl
  · have hlater := ofOperation_of_decode? (s := s) (d := d) m
    rw [step_of_decode?_eq (s := s.withTracing true) hd m,
      step_of_decode?_eq (s := s.withTracing false) hd m]
    simp only [Step.untraced, Step.mk.injEq]
    exact ⟨rfl, rfl, rfl, Event.untraced_traced d hlater⟩

theorem traced_step (s : Session) (w : Word) (m : Machine κ) :
    Step.Traced (s.instructions.decode? w) ((s.withTracing true).step w m) where
  events_eq_nil hd := by
    simp only [step, withTracing, hd]
    rfl
  events_eq d hd := by
    rw [step_of_decode?_eq (s := s.withTracing true) hd m]
    exact ⟨_, rfl, ofOperation_of_decode? m⟩

theorem run_untraced : ∀ (words : List Word) (s : Session) (m : Machine κ),
    ((s.withTracing true).run m words).map Step.untraced = (s.withTracing false).run m words
  | [], _, _ => rfl
  | w :: words, s, m => by
    have hw := s.untraced_step w m
    have ih := run_untraced words (s.after ((s.withTracing true).step w m))
      ((s.withTracing true).step w m).machine
    simp only [run, List.map_cons]
    rw [← hw, List.cons.injEq]
    exact ⟨rfl, ih⟩

theorem traced_run : ∀ (words : List Word) (s : Session) (m : Machine κ),
    List.Forall₂ Step.Traced (words.map s.instructions.decode?) ((s.withTracing true).run m words)
  | [], _, _ => .nil
  | w :: words, s, m => .cons (s.traced_step w m)
      (traced_run words (s.after ((s.withTracing true).step w m))
        ((s.withTracing true).step w m).machine)

/-- Of two sessions that differ in tracing alone, the traced one takes the steps of the other, with
the same results and the same basket and machine after each. Its events are those of the other and
one more for every word that decodes, directly after that of its decoding. -/
theorem run_traced {instructions : InstructionSet} {config : Config} {plain traced : Session}
    (hplain : create instructions { config with traceInstructions := false } = .ok plain)
    (htraced : create instructions { config with traceInstructions := true } = .ok traced)
    (b : Basket) (m : Machine κ) (words : List Word) :
    ((traced.withBasket b).run m words).map Step.untraced = (plain.withBasket b).run m words ∧
      Event.untraced (Step.eventsOf ((traced.withBasket b).run m words)) =
        Step.eventsOf ((plain.withBasket b).run m words) ∧
      List.Forall₂ Step.Traced (words.map instructions.decode?)
        ((traced.withBasket b).run m words) := by
  obtain ⟨-, rfl⟩ := (create_eq_ok_iff _ _ _).1 hplain
  obtain ⟨-, rfl⟩ := (create_eq_ok_iff _ _ _).1 htraced
  have hrun := run_untraced words
    (Session.mk instructions config.policy config.traceInstructions b) m
  refine ⟨hrun, ?_, traced_run words ⟨instructions, config.policy, config.traceInstructions, b⟩ m⟩
  rw [← Step.eventsOf_map_untraced]
  exact congrArg Step.eventsOf hrun

/-- An addition, a word that matches nothing and a division by zero. -/
theorem run_traced_divide :
    ∃ (instructions : InstructionSet) (plain traced : Session) (m : Machine ScriptedConsole)
        (words : List Word),
      instructions = .ofOffers (ChefAssembly.instructionsFor [.assign .add, .assign .divide]) ∧
      words = [0x01084020#32, 0xffffffff#32, 0x0109401a#32] ∧
      create instructions { traceInstructions := false } = .ok plain ∧
      create instructions { traceInstructions := true } = .ok traced ∧
      (Step.eventsOf ((traced.withBasket .empty).run m words)).map Event.message =
        ["decoded", "execute", "decoded", "execute", "division by zero"] ∧
      ((traced.withBasket .empty).run m words).map Step.untraced =
        (plain.withBasket .empty).run m words ∧
      Event.untraced (Step.eventsOf ((traced.withBasket .empty).run m words)) =
        Step.eventsOf ((plain.withBasket .empty).run m words) ∧
      List.Forall₂ Step.Traced (words.map instructions.decode?)
        ((traced.withBasket .empty).run m words) := by
  have hplain := @create_eq_fresh (.ofOffers (ChefAssembly.instructionsFor
    [.assign .add, .assign .divide])) { traceInstructions := false } rfl
  have htraced := @create_eq_fresh (.ofOffers (ChefAssembly.instructionsFor
    [.assign .add, .assign .divide])) { traceInstructions := true } rfl
  refine ⟨_, _, _, Machine.fresh 0#32 0 (ScriptedConsole.ofInput []), _, rfl, rfl, hplain, htraced,
    ?_, @run_traced _ _ _ {} _ _ hplain htraced .empty _ _⟩
  decide +kernel

end Session

end CookingIsa
