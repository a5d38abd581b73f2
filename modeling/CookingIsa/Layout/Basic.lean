/-!
# Word layouts

An instruction is laid out in one of two ways: up to three register fields, or two register fields
and an immediate in the low half of the word.
-/

namespace CookingIsa

/-- How the operands of an instruction lie in its word. -/
inductive Layout where
  | threeRegister
  | registerImmediate
deriving DecidableEq, Repr

namespace Layout

def name : Layout → String
  | threeRegister => "three_op"
  | registerImmediate => "reg_imm"

/-- How fields can fail to fit a layout. -/
inductive Violation where
  /-- Some field of the three-register layout is no register field. -/
  | registerFields
  /-- The register-immediate layout has not exactly three fields. -/
  | fieldCount
  /-- Its third field is not the low half of the word. -/
  | immediate
  /-- One of its first two fields is no register field. -/
  | registerPlaces
deriving DecidableEq, Repr

def Violation.message : Violation → String
  | registerFields => "register fields must be 5 bits wide at rs, rt or rd"
  | fieldCount => "needs two register fields and one immediate"
  | immediate => "the third operand must be the 16-bit immediate"
  | registerPlaces => "the first two operands must be rs/rt register fields"

end Layout

end CookingIsa
