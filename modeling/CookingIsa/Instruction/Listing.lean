import CookingIsa.Instruction.Basic
import CookingIsa.Json.Value

/-!
# Instructions in listings

An instruction is listed as a JSON object of its parts.
-/

namespace CookingIsa

open Json

/-- An operation in a listing: its name, or for a choice the ingredient under that name. -/
def Operation.listing : Operation → Value
  | assign c => .text c.name
  | branchEqual => .text "branch_equal"
  | hostCall => .text "host_call"
  | storeWord => .text "store_word"
  | collect i => .object [("collect", .text i.name)]
  | present => .text "present"

/-- An instruction in a listing. -/
def Instruction.listing (i : Instruction) : Value :=
  .object
    [("syntax", .text i.usage), ("description", .text i.description),
     ("format", .text i.layout.name), ("template", .text i.pattern.text),
     ("action", i.operation.listing)]

end CookingIsa
