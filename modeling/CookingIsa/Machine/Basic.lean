import CookingIsa.Machine.Console
import CookingIsa.Machine.Memory
import CookingIsa.Machine.RegisterFile

/-!
# The machine

The machine around the instructions: registers, memory and a console to act on, and a record of the
branches that were asked for and the faults that were raised.
-/

namespace CookingIsa

/-- A fault as it was raised. -/
structure FaultRecord where
  kind : FaultKind
  word : Word
  mnemonic : String
  message : String
deriving DecidableEq, Repr

/-- The state of the machine. Branch targets and faults are kept in the order in which they came. -/
structure Machine (κ : Type) where
  registers : RegisterFile
  memory : Memory
  console : κ
  branches : List Int
  faults : List FaultRecord

/-- A machine with all registers and bytes zero, which has recorded nothing. -/
def Machine.fresh {κ : Type} (base : Word) (size : Nat) (console : κ) : Machine κ :=
  ⟨.zero, .zero base size, console, [], []⟩

end CookingIsa
