import Mathlib
import CookingIsa.Proofs.Collecting
import CookingIsa.Proofs.InBounds

/-!
# Sessions at one console

Sessions take turns at one console, in any order, while lines are queued for it. Each act keeps the
books (`ledger_after`): a line that leaves the queue goes into one basket, and a prompt is shown for
each attempt to collect. So nothing is lost, doubled or mixed up over any acts
(`ledger_of_interleaving`).
-/

namespace CookingIsa

/-- Sessions at a machine. -/
structure Kitchen (ι : Type) where
  sessions : ι → Session
  machine : Machine ScriptedConsole

/-- What can happen in a kitchen. -/
inductive Act (ι : Type) where
  /-- A session steps a word. -/
  | step (i : ι) (w : Word)
  /-- A word is dispatched by one session with the basket of another. -/
  | dispatch (host i : ι) (w : Word)
  /-- A line is queued. -/
  | push (line : String)
  /-- Another machine is put around the console, as for a session with a machine of its own. -/
  | exchange (m : Machine ScriptedConsole)

def Act.pushed? {ι : Type} : Act ι → Option String
  | push line => some line
  | _ => none

/-- A word that was executed: with whose basket, what it was to collect, and what came of it. -/
structure Turn (ι : Type) where
  owner : ι
  asked : Option Ingredient
  done : Step ScriptedConsole

namespace Kitchen

variable {ι : Type}

def stepped (k : Kitchen ι) (i : ι) (w : Word) : Turn ι :=
  ⟨i, (k.sessions i).collects? w, (k.sessions i).step w k.machine⟩

def dispatched (k : Kitchen ι) (host i : ι) (w : Word) : Turn ι :=
  ⟨i, (k.sessions host).collects? w,
    (k.sessions host).dispatch w (k.sessions i).basket k.machine⟩

def turn? (k : Kitchen ι) : Act ι → Option (Turn ι)
  | .step i w => some (k.stepped i w)
  | .dispatch host i w => some (k.dispatched host i w)
  | .push _ => none
  | .exchange _ => none

/-- For whom an act tries to collect what, if it does. -/
def attempt? (k : Kitchen ι) (a : Act ι) : Option (ι × Ingredient) :=
  (k.turn? a).bind fun t => t.asked.map fun i => (t.owner, i)

/-- For whom an act has collected what, and the line, if it has. -/
def collected? (k : Kitchen ι) (a : Act ι) : Option ((ι × Ingredient) × String) :=
  (k.turn? a).bind fun t => (t.done.collected? t.asked).map fun e => ((t.owner, e.1), e.2)

variable [DecidableEq ι]

/-- The kitchen after a turn. -/
def settle (k : Kitchen ι) (t : Turn ι) : Kitchen ι :=
  ⟨Function.update k.sessions t.owner ((k.sessions t.owner).after t.done), t.done.machine⟩

def after (k : Kitchen ι) : Act ι → Kitchen ι
  | .step i w => k.settle (k.stepped i w)
  | .dispatch host i w => k.settle (k.dispatched host i w)
  | .push line => { k with machine := { k.machine with console := k.machine.console.push line } }
  | .exchange m => { k with machine := { m with console := k.machine.console } }

def afterAll (k : Kitchen ι) (acts : List (Act ι)) : Kitchen ι := acts.foldl after k

/-- What the acts give one after another. -/
def gather {α : Type} (give : Kitchen ι → Act ι → Option α) (k : Kitchen ι) :
    List (Act ι) → List α
  | [] => []
  | a :: acts => (give k a).toList ++ gather give (k.after a) acts

/-! ## Books -/

/-- What happened between two states of a kitchen: who tried to collect what, who collected what
with which line, and which lines were queued, each in order. -/
structure Ledger (k k' : Kitchen ι) (attempts : List (ι × Ingredient))
    (collected : List ((ι × Ingredient) × String)) (pushed : List String) : Prop where
  lines_eq : collected.map Prod.snd ++ k'.machine.console.input =
    k.machine.console.input ++ pushed
  prompts_eq : k'.machine.console.prompts =
    k.machine.console.prompts ++ attempts.map fun a => a.2.prompt
  get?_eq : ∀ i g, (k'.sessions i).basket.get? g =
    (collected.reverse.lookup (i, g)).or ((k.sessions i).basket.get? g)

namespace Ledger

variable {k k₁ k₂ : Kitchen ι} {attempts attempts₁ attempts₂ : List (ι × Ingredient)}
  {collected₁ collected₂ : List ((ι × Ingredient) × String)} {pushed pushed₁ pushed₂ : List String}

theorem of_nothing_collected (hsessions : k₁.sessions = k.sessions)
    (hinput : k₁.machine.console.input = k.machine.console.input ++ pushed)
    (hprompts : k₁.machine.console.prompts = k.machine.console.prompts) :
    Ledger k k₁ [] [] pushed := by
  constructor <;> simp [hsessions, hinput, hprompts]

theorem trans (h₁ : Ledger k k₁ attempts₁ collected₁ pushed₁)
    (h₂ : Ledger k₁ k₂ attempts₂ collected₂ pushed₂) :
    Ledger k k₂ (attempts₁ ++ attempts₂) (collected₁ ++ collected₂) (pushed₁ ++ pushed₂) := by
  refine ⟨?_, ?_, fun i g => ?_⟩
  · rw [List.map_append, List.append_assoc, h₂.lines_eq, ← List.append_assoc, h₁.lines_eq,
      List.append_assoc]
  · rw [h₂.prompts_eq, h₁.prompts_eq, List.map_append, List.append_assoc]
  · rw [h₂.get?_eq, h₁.get?_eq, List.reverse_append, List.lookup_append, Option.or_assoc]

end Ledger

/-- A turn collects for its owner and for nobody else. -/
theorem ledger_settle {k : Kitchen ι} {t : Turn ι}
    (h : t.done.Collecting t.asked k.machine.console (k.sessions t.owner).basket) :
    Ledger k (k.settle t) (t.asked.map fun i => (t.owner, i)).toList
      ((t.done.collected? t.asked).map fun e => ((t.owner, e.1), e.2)).toList [] := by
  refine ⟨?_, ?_, fun i g => ?_⟩
  · rw [List.append_nil, h.input_eq]
    rcases t.done.collected? t.asked with _ | e <;> rfl
  · rw [settle, h.prompts_eq]
    rcases t.asked with _ | g <;> rfl
  · have hbasket := h.get?_eq g
    by_cases hi : i = t.owner
    · subst hi
      simp only [settle, Function.update_self, Session.after, Session.withBasket]
      rw [hbasket]
      rcases t.done.collected? t.asked with _ | e <;> simp [lookup_singleton]
    · simp only [settle, Function.update_of_ne hi]
      rcases t.done.collected? t.asked with _ | e <;> simp [lookup_singleton, hi]

theorem ledger_after (k : Kitchen ι) (a : Act ι) :
    Ledger k (k.after a) (k.attempt? a).toList (k.collected? a).toList a.pushed?.toList := by
  cases a with
  | step i w => exact ledger_settle ((k.sessions i).collecting_step w k.machine)
  | dispatch host i w =>
    exact ledger_settle ((k.sessions host).collecting_dispatch w (k.sessions i).basket k.machine)
  | push line => exact .of_nothing_collected rfl rfl rfl
  | exchange m => exact .of_nothing_collected rfl (List.append_nil _).symm rfl

theorem ledger_afterAll : ∀ (acts : List (Act ι)) (k : Kitchen ι),
    Ledger k (k.afterAll acts) (k.gather attempt? acts) (k.gather collected? acts)
      (acts.filterMap Act.pushed?)
  | [], k => .of_nothing_collected rfl (List.append_nil _).symm rfl
  | a :: acts, k => by
    have hpushed : (a :: acts).filterMap Act.pushed? =
        a.pushed?.toList ++ acts.filterMap Act.pushed? := by
      rcases h : a.pushed? with _ | line <;> simp [h]
    rw [hpushed]
    exact (k.ledger_after a).trans (ledger_afterAll acts (k.after a))

/-- Whatever sessions that start with empty baskets do in turns, with lines queued in between: the
lines that were collected, followed by those still queued, are those that were queued at first and
later; a basket holds for an ingredient the line that was collected last for it with that basket, or
nothing if none was; and there was a prompt for every attempt, whether or not a line was left. -/
theorem ledger_of_interleaving {k : Kitchen ι} {lines : List String}
    (hbaskets : ∀ i, (k.sessions i).basket = .empty)
    (hconsole : k.machine.console = .ofInput lines) (acts : List (Act ι)) :
    let k' := k.afterAll acts
    (k.gather collected? acts).map Prod.snd ++ k'.machine.console.input =
        lines ++ acts.filterMap Act.pushed? ∧
      (∀ i g, (k'.sessions i).basket.get? g =
        (k.gather collected? acts).reverse.lookup (i, g)) ∧
      k'.machine.console.prompts = (k.gather attempt? acts).map fun a => a.2.prompt := by
  obtain ⟨hlines, hprompts, hget⟩ := ledger_afterAll acts k
  rw [hconsole] at hlines hprompts
  refine ⟨hlines, fun i g => ?_, hprompts⟩
  rw [hget, hbaskets i]
  exact Option.or_none

/-- Two sessions ask for a protein and for dairy. The first asks too early, the second gets the line
that comes next, is given another by way of the first one's dispatcher, and in the end asks in
vain. -/
theorem ledger_of_interleaving_two :
    ∃ (k : Kitchen Bool) (acts : List (Act Bool)),
      acts = [.step false 0x3b#32, .push "tofu", .push "milk", .step true 0x33#32,
        .exchange (.fresh 0#32 4 (.ofInput ["none"])), .step false 0x33#32, .push "soy",
        .dispatch false true 0x33#32, .step true 0x3b#32] ∧
      (∀ i, (k.sessions i).basket = .empty) ∧ k.machine.console = .ofInput [] ∧
      k.gather collected? acts = [((true, .dairy), "tofu"), ((false, .dairy), "milk"),
        ((true, .dairy), "soy")] ∧
      ((k.afterAll acts).sessions true).basket.get? .dairy = some "soy" ∧
      ((k.afterAll acts).sessions true).basket.get? .protein = none ∧
      (k.afterAll acts).machine.console.input = [] ∧
      (k.afterAll acts).machine.console.prompts = [Ingredient.protein, .dairy, .dairy, .dairy,
        .protein].map Ingredient.prompt := by
  obtain ⟨k, hk⟩ : ∃ k : Kitchen Bool, k = ⟨fun _ => .fresh (.ofOffers
      (ChefAssembly.instructionsFor [.collect .protein, .collect .dairy])) {},
        .fresh 0#32 8 (.ofInput [])⟩ := ⟨_, rfl⟩
  obtain ⟨acts, hacts⟩ : ∃ acts : List (Act Bool), acts = [.step false 0x3b#32, .push "tofu",
      .push "milk", .step true 0x33#32, .exchange (.fresh 0#32 4 (.ofInput ["none"])),
      .step false 0x33#32, .push "soy", .dispatch false true 0x33#32, .step true 0x3b#32] :=
    ⟨_, rfl⟩
  have hbaskets : ∀ i, (k.sessions i).basket = .empty := by
    rw [hk]
    exact fun _ => rfl
  have hconsole : k.machine.console = .ofInput [] := by rw [hk]; rfl
  have hcollected : k.gather collected? acts = [((true, .dairy), "tofu"),
      ((false, .dairy), "milk"), ((true, .dairy), "soy")] := by
    rw [hk, hacts]
    decide +kernel
  have hattempts : k.gather attempt? acts = [(false, .protein), (true, .dairy), (false, .dairy),
      (true, .dairy), (true, .protein)] := by
    rw [hk, hacts]
    decide +kernel
  have hpushed : acts.filterMap Act.pushed? = ["tofu", "milk", "soy"] := by rw [hacts]; rfl
  obtain ⟨hlines, hget, hprompts⟩ := ledger_of_interleaving hbaskets hconsole acts
  rw [hcollected, hpushed] at hlines
  rw [hcollected] at hget
  rw [hattempts] at hprompts
  refine ⟨k, acts, hacts, hbaskets, hconsole, hcollected, hget true .dairy, hget true .protein, ?_,
    hprompts⟩
  simpa using hlines

end Kitchen

end CookingIsa
