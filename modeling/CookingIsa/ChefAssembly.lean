import CookingIsa.Event

/-!
# Chef Assembly

Twenty instructions for cooking: arithmetic, moves, memory accesses, a branch, a host call, and the
choice of five ingredients for a dish that is then presented.
-/

namespace CookingIsa.ChefAssembly

def name : String := "Chef Assembly"

def description : String := "Simulate cooking like a professional chef"

/-- The instructions in the order of their registration. -/
def table : List InstructionParts :=
  [⟨"season $t0,$t1,12",
    "Add immediate: set $t0 to $t1 plus a signed 16-bit immediate, trapping on overflow",
    .registerImmediate, "001000 sssss fffff tttttttttttttttt", .assign .addImmediate⟩,
   ⟨"mix $t0,$t1,$t2",
    "Add: $t0 = $t1 + $t2",
    .threeRegister, "000000 sssss ttttt fffff 00000 100000", .assign .add⟩,
   ⟨"chop $t0,$t1,$t2",
    "Divide: $t0 = $t1 / $t2, truncating toward zero",
    .threeRegister, "000000 sssss ttttt fffff 00000 011010", .assign .divide⟩,
   ⟨"spill $t0,$t1,$t2",
    "Subtract: $t0 = $t1 - $t2",
    .threeRegister, "000000 sssss ttttt fffff 00000 100010", .assign .subtract⟩,
   ⟨"bake $t0,$t1,$t2",
    "Multiply: $t0 = $t1 * $t2",
    .threeRegister, "000000 sssss ttttt fffff 00000 011000", .assign .multiply⟩,
   ⟨"taste $t0,$t1,label",
    "Branch if equal: branch to label if $t0 equals $t1",
    .registerImmediate, "000100 sssss fffff tttttttttttttttt", .branchEqual⟩,
   ⟨"serve",
    "Host call: $v0 = 1 serves $a0 dishes, $v0 = 4 serves dish $a0",
    .threeRegister, "000000 00000 00000 00000 00000 001100", .hostCall⟩,
   ⟨"to_fridge $t0,12($t1)",
    "Store word: memory[$t1 + offset] = $t0",
    .registerImmediate, "101011 sssss fffff tttttttttttttttt", .storeWord⟩,
   ⟨"from_fridge $t0,12($t1)",
    "Load word: $t0 = memory[$t1 + offset]",
    .registerImmediate, "100011 sssss fffff tttttttttttttttt", .assign .loadWord⟩,
   ⟨"plate $t0,$t1",
    "Move: $t0 = $t1",
    .threeRegister, "000000 sssss 00000 fffff 00000 100001", .assign .move⟩,
   ⟨"protein",
    "Choose the protein for the dish",
    .threeRegister, "000000 00000 00000 00000 00000 111011", .collect .protein⟩,
   ⟨"grains",
    "Choose the grains for the dish",
    .threeRegister, "000000 00000 00000 00000 00000 101011", .collect .grains⟩,
   ⟨"vegetable",
    "Choose the vegetable for the dish",
    .threeRegister, "000000 00000 00000 00000 00000 011001", .collect .vegetable⟩,
   ⟨"fruit",
    "Choose the fruit for the dish",
    .threeRegister, "000000 00000 00000 00000 00000 101000", .collect .fruit⟩,
   ⟨"dairy",
    "Choose the dairy for the dish",
    .threeRegister, "000000 00000 00000 00000 00000 110011", .collect .dairy⟩,
   ⟨"present",
    "Present the dish to your guests",
    .threeRegister, "000000 00000 00000 00000 00000 111001", .present⟩,
   ⟨"salt $t0",
    "Double: $t0 = $t0 * 2",
    .threeRegister, "000000 00000 00000 fffff 00000 001000", .assign .double⟩,
   ⟨"pepper $t0",
    "Halve: $t0 = $t0 / 2, truncating toward zero",
    .threeRegister, "000000 00000 00000 fffff 00000 001111", .assign .halve⟩,
   ⟨"blend $t0,$t1,$t2",
    "Average: $t0 = ($t1 + $t2) / 2, truncating toward zero",
    .threeRegister, "101111 sssss ttttt fffff 00000 000000", .assign .average⟩,
   ⟨"throw_out $t0",
    "Zero: $t0 = 0",
    .threeRegister, "000000 00000 00000 fffff 00000 101101", .assign .zero⟩]

def instructionSet : Except SetupError InstructionSet := InstructionSet.ofParts table

def events (instructions : InstructionSet) : List Event :=
  instructions.events ++ [.built name instructions.size]

end CookingIsa.ChefAssembly
