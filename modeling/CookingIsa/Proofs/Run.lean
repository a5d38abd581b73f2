import Mathlib
import CookingIsa.Session

/-!
# Runs of a session

A session steps words one after another on a machine, whatever becomes of each step: the next word
meets the basket and the machine that the step before has left.
-/

namespace CookingIsa.Session

variable {κ : Type}

/-- The session after a step, which has kept the basket of the step. -/
def after (s : Session) (done : Step κ) : Session := s.withBasket done.basket

@[simp] theorem policy_after (s : Session) (done : Step κ) :
    (s.after done).policy = s.policy := rfl

@[simp] theorem instructions_withBasket (s : Session) (b : Basket) :
    (s.withBasket b).instructions = s.instructions := rfl

@[simp] theorem instructions_after (s : Session) (done : Step κ) :
    (s.after done).instructions = s.instructions := rfl

variable [Console κ]

/-- The steps of words one after another, starting on a machine. -/
def run (s : Session) (m : Machine κ) : List Word → List (Step κ)
  | [] => []
  | w :: words =>
    let done := s.step w m
    done :: run (s.after done) done.machine words

/-- The machine that is left after words were stepped one after another. -/
def machineAfter (s : Session) (m : Machine κ) : List Word → Machine κ
  | [] => m
  | w :: words =>
    let done := s.step w m
    machineAfter (s.after done) done.machine words

/-- The session that is left after words were stepped one after another. -/
def sessionAfter (s : Session) (m : Machine κ) : List Word → Session
  | [] => s
  | w :: words =>
    let done := s.step w m
    sessionAfter (s.after done) done.machine words

/-- The step of a word that comes after others. -/
def stepAfter (s : Session) (m : Machine κ) (before : List Word) (w : Word) : Step κ :=
  (s.sessionAfter m before).step w (s.machineAfter m before)

/-- Every step of a run starts with a session, a word and a machine of which `P` holds. -/
def AtEachStep (P : Session → Word → Machine κ → Prop) (s : Session) (m : Machine κ) :
    List Word → Prop
  | [] => True
  | w :: words =>
    let done := s.step w m
    P s w m ∧ AtEachStep P (s.after done) done.machine words

/-- What holds of every step from an invariant holds of every step of a run, if each step keeps the
invariant. -/
theorem forall_mem_run {I : Session → Machine κ → Prop} {P : Step κ → Prop}
    (hP : ∀ s m w, I s m → P (s.step w m))
    (hI : ∀ s m w, I s m → I (s.after (s.step w m)) (s.step w m).machine) :
    ∀ (words : List Word) {s : Session} {m : Machine κ}, I s m → ∀ done ∈ s.run m words, P done
  | [], _, _, _ => by simp [run]
  | w :: words, s, m, h => by
    intro done hdone
    rcases List.mem_cons.1 hdone with rfl | hdone
    · exact hP s m w h
    · exact forall_mem_run hP hI words (hI s m w h) done hdone

theorem instructions_sessionAfter : ∀ (words : List Word) (s : Session) (m : Machine κ),
    (s.sessionAfter m words).instructions = s.instructions
  | [], _, _ => rfl
  | w :: words, s, m =>
    instructions_sessionAfter words (s.after (s.step w m)) (s.step w m).machine

theorem policy_sessionAfter : ∀ (words : List Word) (s : Session) (m : Machine κ),
    (s.sessionAfter m words).policy = s.policy
  | [], _, _ => rfl
  | w :: words, s, m => policy_sessionAfter words (s.after (s.step w m)) (s.step w m).machine

end CookingIsa.Session
