import CookingIsa.Pattern.Parser

/-!
# Setup errors

What can be wrong with an instruction, a set of instructions or a configuration before anything is
executed.
-/

namespace CookingIsa

/-- The two registers that a host call reads. -/
inductive HostCallRole where
  | selector
  | argument
deriving DecidableEq, Repr

def HostCallRole.name : HostCallRole → String
  | selector => "selector"
  | argument => "argument"

/-- Why an instruction, a set or a session cannot be set up. -/
inductive SetupError where
  /-- The usage of an instruction is blank, so it has no name. -/
  | emptyUsage
  | pattern (mnemonic : String) (error : PatternError)
  /-- The operation takes other operands than the instruction provides. -/
  | operationMismatch (mnemonic : String) (arity : Nat) (layout : Layout)
  /-- Some word would match both instructions. -/
  | overlap (mnemonic existing : String)
  | duplicateMnemonic (mnemonic : String)
  | hostCallRegister (role : HostCallRole) (register : Nat)
deriving DecidableEq, Repr

def SetupError.message : SetupError → String
  | emptyUsage => "instruction has an empty mnemonic syntax"
  | pattern mnemonic _ => "invalid template for `" ++ mnemonic ++ "`"
  | operationMismatch mnemonic arity layout =>
    "action of `" ++ mnemonic ++ s!"` expects {arity} operands in the {layout.name} format"
  | overlap mnemonic existing =>
    "template for `" ++ mnemonic ++ "` overlaps the template for `" ++ existing ++ "`"
  | duplicateMnemonic mnemonic => "mnemonic `" ++ mnemonic ++ "` is already registered"
  | hostCallRegister role register =>
    s!"host-call {role.name} register {register} is out of range (0-31)"

end CookingIsa
