import CookingIsa.InstructionSet.Decoding
import CookingIsa.Machine.Basic

/-!
# Events

What an observer is told while instructions are registered, decoded and executed. An event has a
level, a message and named values.
-/

namespace CookingIsa

/-- How much an event matters, from the least. -/
inductive Level where
  | trace
  | debug
  | info
  | warn
deriving DecidableEq, Repr

def Level.name : Level → String
  | trace => "trace"
  | debug => "debug"
  | info => "info"
  | warn => "warn"

/-- Something that an observer is told. -/
inductive Event where
  /-- An instruction joined a set. -/
  | registered (i : Instruction)
  /-- An instruction set is complete. -/
  | built (name : String) (size : Nat)
  /-- A word matched an instruction. -/
  | decoded (d : Decoding)
  /-- A word is about to be executed. -/
  | executing (d : Decoding)
  | branchRequested (target : Int)
  /-- A word has ended with a branch, which the program does not follow. -/
  | branchTaken (w : Word) (target : Int)
  /-- A line was read for an ingredient. -/
  | collected (i : Ingredient) (line : String)
  /-- A host call selected nothing. -/
  | hostCallIgnored (selector : Int)
  | faultRaised (r : FaultRecord)

namespace Event

def level : Event → Level
  | registered _ => .trace
  | built _ _ => .info
  | decoded _ => .trace
  | executing _ => .debug
  | branchRequested _ => .debug
  | branchTaken _ _ => .info
  | collected _ _ => .debug
  | hostCallIgnored _ => .trace
  | faultRaised _ => .warn

/-- What has happened; a fault speaks for itself. -/
def message : Event → String
  | registered _ => "registered"
  | built _ _ => "instruction registry built"
  | decoded _ => "decoded"
  | executing _ => "execute"
  | branchRequested _ => "branch requested"
  | branchTaken _ _ => "branch taken"
  | collected _ _ => "collected"
  | hostCallIgnored _ => "host call ignored"
  | faultRaised r => r.message

def causeText : Option Nat → String
  | none => "None"
  | some code => s!"Some({code})"

def fields : Event → List (String × String)
  | registered i => [("mnemonic", i.name), ("template", i.pattern.text)]
  | built name size => [("isa", name), ("instructions", toString size)]
  | decoded d =>
    [("word", d.word.text), ("mnemonic", d.instruction.name), ("operands", d.operands.text)]
  | executing d => [("word", d.word.text), ("insn", d.text)]
  | branchRequested target => [("branch_target", toString target)]
  | branchTaken w target => [("word", w.text), ("branch_target", toString target)]
  | collected i line => [("slot", i.name), ("line", line)]
  | hostCallIgnored selector => [("selector", toString selector)]
  | faultRaised r =>
    [("kind", r.kind.name), ("cause", causeText r.kind.cause?), ("word", r.word.text),
     ("mnemonic", r.mnemonic)]

/-- The events that are shown to whoever asks for no more. -/
def warnings (events : List Event) : List Event := events.filter fun e => e.level = .warn

end Event

def InstructionSet.events (s : InstructionSet) : List Event := s.entries.map .registered

end CookingIsa
