import CookingIsa.Policy
import CookingIsa.Register
import CookingIsa.SetupError
import CookingIsa.Word

/-!
# Configurations

The settings of a session and of the machine that comes with it. The registers of a host call are
checked when a session is set up, because any number can be written for them.
-/

namespace CookingIsa

/-- The settings, each with its default. -/
structure Config where
  /-- Whether an event is emitted for every word executed. -/
  traceInstructions : Bool := false
  arithmetic : ArithmeticMode := .strict
  unchosen : UnchosenPolicy := .empty
  memoryBase : Word := 0x10010000#32
  memorySize : Nat := 64 * 1024
  selectorRegister : Nat := 2
  argumentRegister : Nat := 4
deriving DecidableEq, Repr

namespace Config

def policy (c : Config) : Policy :=
  ⟨c.arithmetic, c.unchosen, c.selectorRegister, c.argumentRegister⟩

/-- Checks that the registers of a host call exist, the selector first. -/
def validate (c : Config) : Except SetupError Unit :=
  if Register.count ≤ c.selectorRegister then
    .error (.hostCallRegister .selector c.selectorRegister)
  else if Register.count ≤ c.argumentRegister then
    .error (.hostCallRegister .argument c.argumentRegister)
  else .ok ()

theorem validate_eq_ok_iff {c : Config} :
    c.validate = .ok () ↔ c.selectorRegister < 32 ∧ c.argumentRegister < 32 := by
  unfold validate Register.count
  split
  · simp
    omega
  · split
    · simp
      omega
    · simp
      omega

end Config

end CookingIsa
