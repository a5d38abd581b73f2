import Mathlib
import CookingIsa.Proofs.Frame
import CookingIsa.Proofs.Run

/-!
# What is collected

A word that collects shows a prompt and takes the first line of the input into the basket, if there
is one; its step succeeds exactly if there is. No other word shows a prompt, takes a line or changes
the basket (`collecting_step`). So after a run the basket holds for each ingredient the line that was
collected last (`get?_sessionAfter`), and none for an ingredient that no step has collected
(`chose_iff`).
-/

namespace CookingIsa

theorem lookup_singleton {α β : Type} [BEq α] [LawfulBEq α] [DecidableEq α] (e : α × β) (k : α) :
    [e].lookup k = if k = e.1 then some e.2 else none := by
  by_cases h : k = e.1
  · simp [List.lookup, h]
  · simp [List.lookup, h, beq_eq_false_iff_ne.2 h]

/-- The ingredient that an operation collects, if it collects one. -/
def Operation.collects? : Operation → Option Ingredient
  | collect i => some i
  | _ => none

theorem Operation.collects?_eq_none_iff {op : Operation} :
    op.collects? = none ↔ ∀ i, op ≠ collect i := by
  cases op <;> simp [collects?]

namespace Step

variable {κ : Type}

/-- The ingredient that a step was to collect and the line it is left with, if it succeeded. -/
def collected? (done : Step κ) : Option Ingredient → Option (Ingredient × String)
  | none => none
  | some i => done.result.toOption.bind fun _ => (done.basket.get? i).map fun line => (i, line)

theorem collected?_of_error {done : Step κ} {e : StepError} (h : done.result = .error e)
    (asked : Option Ingredient) : done.collected? asked = none := by
  cases asked <;> simp [collected?, h, Except.toOption]

theorem collected?_eq_some_iff {done : Step κ} {asked : Option Ingredient} {i : Ingredient}
    {line : String} : done.collected? asked = some (i, line) ↔
      asked = some i ∧ (∃ c, done.result = .ok c) ∧ done.basket.get? i = some line := by
  rcases asked with _ | j
  · simp [collected?]
  rcases hresult : done.result with e | c
  · simp [collected?, hresult, Except.toOption]
  · simp only [collected?, hresult, Except.toOption, Option.bind_some, Option.map_eq_some_iff,
      Prod.mk.injEq, Option.some.injEq, Except.ok.injEq, exists_eq', true_and]
    constructor
    · rintro ⟨_, hget, rfl, rfl⟩
      exact ⟨rfl, hget⟩
    · rintro ⟨rfl, hget⟩
      exact ⟨line, hget, rfl, rfl⟩

/-- What a step does that was to collect something, or nothing, to the console and the basket that
it starts with: no line is lost, and what is collected is put into the basket. If it succeeds, it
has collected what it was to collect. -/
structure Collecting (done : Step ScriptedConsole) (asked : Option Ingredient)
    (c : ScriptedConsole) (b : Basket) : Prop where
  input_eq : c.input =
    (done.collected? asked).toList.map Prod.snd ++ done.machine.console.input
  prompts_eq : done.machine.console.prompts = c.prompts ++ asked.toList.map Ingredient.prompt
  get?_eq : ∀ i, done.basket.get? i =
    ((done.collected? asked).toList.lookup i).or (b.get? i)
  exists_line : ∀ c i, done.result = .ok c → asked = some i →
    ∃ line, done.collected? asked = some (i, line)

/-- What a step collects is what it was to collect, exactly if it succeeds. -/
theorem Collecting.exists_line_iff {done : Step ScriptedConsole} {asked : Option Ingredient}
    {c : ScriptedConsole} {b : Basket} (h : done.Collecting asked c b) (i : Ingredient) :
    (∃ line, done.collected? asked = some (i, line)) ↔
      asked = some i ∧ ∃ c, done.result = .ok c := by
  refine ⟨fun ⟨line, hline⟩ => ?_, fun ⟨hasked, c, hc⟩ => h.exists_line c i hc hasked⟩
  obtain ⟨hasked, hok, -⟩ := collected?_eq_some_iff.1 hline
  exact ⟨hasked, hok⟩

theorem Collecting.of_unchanged {done : Step ScriptedConsole} {c : ScriptedConsole}
    (hconsole : done.machine.console.input = c.input ∧ done.machine.console.prompts = c.prompts) :
    done.Collecting none c done.basket := by
  obtain ⟨hinput, hprompts⟩ := hconsole
  constructor <;> simp [collected?, hinput, hprompts]

end Step

namespace Operation.Effect

variable {policy : Policy} {op : Operation} {o : Operands} {b : Basket}
  {m : Machine ScriptedConsole} {outcome : Outcome ScriptedConsole}

/-- A step that ends with what an operation has left collects what the operation collects. -/
theorem collecting (h : Effect policy o b m op outcome) {done : Step ScriptedConsole}
    (hresult : done.result = outcome.result.mapError .ofStop)
    (hbasket : done.basket = outcome.basket)
    (hconsole : done.machine.console = outcome.machine.console) :
    done.Collecting op.collects? m.console b := by
  cases h with
  | assigned | branched | passed | ignored | stored =>
    obtain rfl : done.basket = b := hbasket
    exact .of_unchanged (by simp [hconsole, Outcome.next])
  | stopped hop =>
    obtain rfl : done.basket = b := hbasket
    rw [collects?_eq_none_iff.2 hop]
    exact .of_unchanged (by simp [hconsole, Outcome.stopped])
  | written hline hwrite =>
    obtain rfl : done.basket = b := hbasket
    obtain ⟨-, rfl⟩ := ScriptedConsole.eq_of_writeLine_eq hwrite
    rcases hline.eq with rfl | rfl <;> exact .of_unchanged (by simp [hconsole, Outcome.next])
  | unwritten hline hwrite =>
    cases (ScriptedConsole.eq_of_writeLine_eq hwrite).1
  | @collected i line console hread =>
    obtain ⟨hinput, hprompts, -⟩ := ScriptedConsole.eq_of_readLine_eq_ok hread
    have hcollected : done.collected? (some i) = some (i, line) := by
      simp [Step.collected?, hresult, hbasket, Outcome.next, Except.mapError, Except.toOption]
    refine ⟨?_, ?_, fun j => ?_, fun _ j _ hj => ?_⟩
    · simp [collects?, hcollected, hinput, hconsole, Outcome.next]
    · simp [collects?, hprompts, hconsole, Outcome.next]
    · simp only [collects?, hcollected, hbasket, Outcome.next, Basket.get?_put, Option.toList,
        lookup_singleton]
      split_ifs <;> rfl
    · cases hj
      exact ⟨line, hcollected⟩
  | @uncollected i e console hread =>
    obtain ⟨hinput, rfl⟩ := ScriptedConsole.eq_of_readLine_eq_error hread
    have hnone := Step.collected?_of_error hresult (some i)
    refine ⟨?_, ?_, fun j => ?_, fun c j hc _ => ?_⟩
    · simp [collects?, hnone, hinput, hconsole]
    · simp [collects?, hconsole]
    · simp [collects?, hnone, hbasket]
    · cases hresult.symm.trans hc

end Operation.Effect

namespace Session

/-- The ingredient that a word collects, if it collects one. -/
def collects? (s : Session) (w : Word) : Option Ingredient :=
  (s.instructions.decode? w).bind fun d => d.instruction.operation.collects?

theorem collecting_step (s : Session) (w : Word) (m : Machine ScriptedConsole) :
    (s.step w m).Collecting (s.collects? w) m.console s.basket := by
  obtain ⟨hd, hstep⟩ | ⟨d, o, hd, heffect, hresult, hbasket, hmachine⟩ := s.step_cases w m
  · rw [hstep, collects?, hd]
    exact .of_unchanged ⟨rfl, rfl⟩
  · rw [collects?, hd]
    exact heffect.collecting hresult hbasket (by rw [hmachine, Machine.console_note])

theorem collecting_dispatch (s : Session) (w : Word) (b : Basket) (m : Machine ScriptedConsole) :
    (s.dispatch w b m).Collecting (s.collects? w) m.console b := by
  rcases hd : s.instructions.decode? w with _ | d
  · simp only [dispatch, collects?, hd]
    exact .of_unchanged ⟨rfl, rfl⟩
  · simp only [dispatch, collects?, hd]
    have heffect : Operation.Effect s.policy d.operands b m d.instruction.operation _ :=
      Operation.effect_run _
    exact heffect.collecting (by simp) (by simp) (by simp [Step.ofOutcome])

variable {κ : Type} [Console κ]

/-- The ingredients that the steps of a run have collected, in order, each with its line. -/
def collected (s : Session) (m : Machine κ) : List Word → List (Ingredient × String)
  | [] => []
  | w :: words =>
    let done := s.step w m
    (done.collected? (s.collects? w)).toList ++ (s.after done).collected done.machine words

theorem get?_sessionAfter : ∀ (words : List Word) (s : Session) (m : Machine ScriptedConsole)
    (i : Ingredient), (s.sessionAfter m words).basket.get? i =
      ((s.collected m words).reverse.lookup i).or (s.basket.get? i)
  | [], _, _, _ => by simp [sessionAfter, collected]
  | w :: words, s, m, i => by
    have hstep := (s.collecting_step w m).get?_eq i
    have ih := get?_sessionAfter words (s.after (s.step w m)) (s.step w m).machine i
    simp only [sessionAfter, collected, List.reverse_append, List.lookup_append]
    have hone : ∀ o : Option (Ingredient × String), o.toList.reverse = o.toList := by
      rintro (_ | _) <;> rfl
    rw [ih, Option.or_assoc, hone]
    exact congrArg _ hstep

/-- A word of the run collects the ingredient, and its step succeeds. -/
def Chose (s : Session) (m : Machine κ) (words : List Word) (i : Ingredient) : Prop :=
  ∃ before w rest, words = before ++ w :: rest ∧
    (s.sessionAfter m before).collects? w = some i ∧ ∃ c, (s.stepAfter m before w).result = .ok c

theorem not_chose_nil (s : Session) (m : Machine κ) (i : Ingredient) : ¬ s.Chose m [] i := by
  rintro ⟨before, w, rest, hwords, -⟩
  simp at hwords

theorem chose_cons_iff (s : Session) (m : Machine κ) (w : Word) (words : List Word)
    (i : Ingredient) : s.Chose m (w :: words) i ↔
      (s.collects? w = some i ∧ ∃ c, (s.step w m).result = .ok c) ∨
        (s.after (s.step w m)).Chose (s.step w m).machine words i := by
  constructor
  · rintro ⟨_ | ⟨v, before⟩, u, rest, hwords, hcollects, hok⟩
    · cases hwords
      exact .inl ⟨hcollects, hok⟩
    · cases hwords
      exact .inr ⟨before, u, rest, rfl, hcollects, hok⟩
  · rintro (⟨hcollects, hok⟩ | ⟨before, u, rest, rfl, hcollects, hok⟩)
    · exact ⟨[], w, words, rfl, hcollects, hok⟩
    · exact ⟨w :: before, u, rest, rfl, hcollects, hok⟩

/-- What was collected is what words collect whose steps succeed. -/
theorem chose_iff : ∀ (words : List Word) (s : Session) (m : Machine ScriptedConsole)
    (i : Ingredient), s.Chose m words i ↔ ∃ line, (i, line) ∈ s.collected m words
  | [], s, m, i => by simp [not_chose_nil, collected]
  | w :: words, s, m, i => by
    have ih := chose_iff words (s.after (s.step w m)) (s.step w m).machine i
    rw [chose_cons_iff, ih, ← (s.collecting_step w m).exists_line_iff i]
    simp [collected, exists_or]

end Session

end CookingIsa
