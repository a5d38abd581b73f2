import CookingIsa.Arithmetic
import CookingIsa.Basket
import CookingIsa.Event

/-!
# Executing instructions

An instruction acts on the machine and on the basket of its session. If it raises a fault it leaves
them as they were, except that a console may have shown its prompt.
-/

namespace CookingIsa

inductive Control where
  | next
  /-- A branch to an offset is asked for. -/
  | branch (target : Int)
deriving DecidableEq, Repr

inductive Stop where
  | fault (f : Fault)
  /-- An operand, a register or a byte is accessed that is not there. -/
  | outOfBounds
deriving DecidableEq, Repr

/-- What comes of executing an instruction: how it ended, the state it left, and the events on the
way. -/
structure Outcome (κ : Type) where
  result : Except Stop Control
  basket : Basket
  machine : Machine κ
  events : List Event

namespace Operands

def immediate (o : Operands) (i : Nat) : Except Stop Int :=
  match o.get? i with
  | some v => .ok v
  | none => .error .outOfBounds

def register (o : Operands) (i : Nat) : Except Stop Nat :=
  match (o.get? i).bind Int.toNat? with
  | some n => .ok n
  | none => .error .outOfBounds

end Operands

namespace RegisterFile

def read (r : RegisterFile) (n : Nat) : Except Stop Word :=
  match r.get? n with
  | some w => .ok w
  | none => .error .outOfBounds

/-- The content of the register that an operand names. -/
def source (r : RegisterFile) (o : Operands) (i : Nat) : Except Stop Word := do
  r.read (← o.register i)

/-- The register file after a write to the register that operand 0 names. -/
def assign (r : RegisterFile) (o : Operands) (w : Word) : Except Stop RegisterFile := do
  match r.set? (← o.register 0) w with
  | some r' => .ok r'
  | none => .error .outOfBounds

/-- The register that operand 1 names plus the immediate, which wraps. -/
def effectiveAddress (r : RegisterFile) (o : Operands) : Except Stop Word := do
  return (← r.source o 1) + BitVec.ofInt 32 (← o.immediate 2)

end RegisterFile

namespace Stop

/-- The stop that a failed access to memory is, given the fault for a bad address. -/
def ofMemory (fault : AddressError → Fault) : MemoryError → Stop
  | .address e => .fault (fault e)
  | .outOfBounds => .outOfBounds

end Stop

def Computation.value (c : Computation) (mode : ArithmeticMode) (r : RegisterFile) (m : Memory)
    (o : Operands) : Except Stop Word :=
  match c with
  | .addImmediate => do
    let a ← r.source o 1
    (Arithmetic.add .strict a (BitVec.ofInt 32 (← o.immediate 2))).mapError .fault
  | .add => do (Arithmetic.add mode (← r.source o 1) (← r.source o 2)).mapError .fault
  | .subtract => do (Arithmetic.subtract mode (← r.source o 1) (← r.source o 2)).mapError .fault
  | .multiply => do (Arithmetic.multiply mode (← r.source o 1) (← r.source o 2)).mapError .fault
  | .divide => do (Arithmetic.divide mode (← r.source o 1) (← r.source o 2)).mapError .fault
  | .average => do return Arithmetic.average mode (← r.source o 1) (← r.source o 2)
  | .double => do (Arithmetic.double mode (← r.source o 0)).mapError .fault
  | .halve => do return Arithmetic.halve (← r.source o 0)
  | .zero => .ok 0#32
  | .move => r.source o 1
  | .loadWord => do (m.load (← r.effectiveAddress o)).mapError (.ofMemory .load)

namespace Outcome

variable {κ : Type}

/-- An outcome that leaves everything as it was. -/
def stopped (s : Stop) (b : Basket) (m : Machine κ) : Outcome κ := ⟨.error s, b, m, []⟩

/-- An outcome after which execution goes on with the next word. -/
def next (b : Basket) (m : Machine κ) (events : List Event) : Outcome κ := ⟨.ok .next, b, m, events⟩

def writing [Console κ] (line : String) (b : Basket) (m : Machine κ) : Outcome κ :=
  match Console.writeLine m.console line with
  | (.error e, console) => ⟨.error (.fault (.console e)), b, { m with console }, []⟩
  | (.ok (), console) => next b { m with console } []

end Outcome

namespace Operation

variable {κ : Type} [Console κ]

def runAssign (c : Computation) (mode : ArithmeticMode) (o : Operands) (b : Basket)
    (m : Machine κ) : Outcome κ :=
  match c.value mode m.registers m.memory o >>= m.registers.assign o with
  | .error s => .stopped s b m
  | .ok registers => .next b { m with registers } []

/-- Records the immediate as the target of a branch if the two registers are equal. -/
def runBranchEqual (o : Operands) (b : Basket) (m : Machine κ) : Outcome κ :=
  let decision : Except Stop (Option Int) := do
    if (← m.registers.source o 0) = (← m.registers.source o 1) then
      return some (← o.immediate 2)
    else return none
  match decision with
  | .error s => .stopped s b m
  | .ok none => .next b m []
  | .ok (some target) =>
    ⟨.ok (.branch target), b, { m with branches := m.branches ++ [target] },
      [.branchRequested target]⟩

/-- Writes the line that the selector register selects. -/
def runHostCall (policy : Policy) (b : Basket) (m : Machine κ) : Outcome κ :=
  match m.registers.read policy.selectorRegister, m.registers.read policy.argumentRegister with
  | .ok selector, .ok argument =>
    if selector = 1#32 then .writing s!"Serving {argument.toInt} dishes" b m
    else if selector = 4#32 then .writing s!"Serving dish: {argument.toInt}" b m
    else .next b m [.hostCallIgnored selector.toInt]
  | _, _ => .stopped .outOfBounds b m

/-- Writes the register of operand 0 to the memory. -/
def runStoreWord (o : Operands) (b : Basket) (m : Machine κ) : Outcome κ :=
  let stored : Except Stop Memory := do
    let addr ← m.registers.effectiveAddress o
    (m.memory.store addr (← m.registers.source o 0)).mapError (.ofMemory .store)
  match stored with
  | .error s => .stopped s b m
  | .ok memory => .next b { m with memory } []

/-- Asks for an ingredient and puts the line that is read into the basket. -/
def runCollect (i : Ingredient) (b : Basket) (m : Machine κ) : Outcome κ :=
  match Console.readLine m.console i.prompt with
  | (.error e, console) => ⟨.error (.fault (.console e)), b, { m with console }, []⟩
  | (.ok line, console) => .next (b.put i line) { m with console } [.collected i line]

def runPresent (policy : Policy) (b : Basket) (m : Machine κ) : Outcome κ :=
  match b.dish policy.unchosen with
  | .error i => .stopped (.fault (.unchosen i)) b m
  | .ok line => .writing line b m

def run (op : Operation) (policy : Policy) (o : Operands) (b : Basket) (m : Machine κ) :
    Outcome κ :=
  match op with
  | assign c => runAssign c policy.arithmetic o b m
  | branchEqual => runBranchEqual o b m
  | hostCall => runHostCall policy b m
  | storeWord => runStoreWord o b m
  | collect i => runCollect i b m
  | present => runPresent policy b m

end Operation

/-- Executes a decoded word. If it is traced, an event comes before all others. -/
def Decoding.execute {κ : Type} [Console κ] (d : Decoding) (policy : Policy) (traced : Bool)
    (b : Basket) (m : Machine κ) : Outcome κ :=
  let outcome := d.instruction.operation.run policy d.operands b m
  if traced then { outcome with events := .executing d :: outcome.events } else outcome

end CookingIsa
