import CookingIsa.Layout.Operands
import CookingIsa.Operation
import CookingIsa.SetupError

/-!
# Instructions

An instruction joins a line of usage, whose first word is its name, the pattern of its words and the
operation they stand for. The pattern provides what the operation takes: as many operands, in the
same layout.
-/

namespace CookingIsa

/-- The parts of an instruction as they are written down, whether or not they fit together. -/
structure InstructionParts where
  usage : String
  description : String
  layout : Layout
  pattern : String
  operation : Operation

/-- An instruction that can be encoded, decoded and executed. -/
structure Instruction where
  usage : String
  description : String
  pattern : Pattern
  operation : Operation
  named : (Text.firstWord? usage).isSome = true
  fits : operation.layout.violation? pattern = none
  length_fields : pattern.fields.length = operation.arity

namespace Instruction

def name (i : Instruction) : String := (Text.firstWord? i.usage).get i.named

def layout (i : Instruction) : Layout := i.operation.layout

/-- An instruction of its parts, unless they do not fit together. The name is looked for first, then
the pattern is read and compared with the layout, and last with the operation. -/
def ofParts (parts : InstructionParts) : Except SetupError Instruction :=
  match hname : Text.firstWord? parts.usage with
  | none => .error .emptyUsage
  | some mnemonic =>
    match Pattern.parse parts.pattern with
    | .error e => .error (.pattern mnemonic e)
    | .ok p =>
      match hfit : parts.layout.violation? p with
      | some v => .error (.pattern mnemonic (.misfit parts.layout v))
      | none =>
        if h : parts.operation.layout = parts.layout
            ∧ p.fields.length = parts.operation.arity then
          .ok ⟨parts.usage, parts.description, p, parts.operation, by simp [hname], h.1 ▸ hfit, h.2⟩
        else .error (.operationMismatch mnemonic parts.operation.arity parts.operation.layout)

def encode (i : Instruction) (operands : List Int) : Except EncodeError Word :=
  i.layout.encode i.pattern operands

def operandsOf (i : Instruction) (w : Word) : Operands := i.layout.extract i.pattern w

theorem length_operandsOf (i : Instruction) (w : Word) :
    (i.operandsOf w).length = i.operation.arity := by
  simp [operandsOf, Operands.length, Layout.extract, i.length_fields]

end Instruction

end CookingIsa
