import CookingIsa.Event
import CookingIsa.Instruction.Listing

/-!
# Reports

The texts that the program prints about instructions, words and the state of a machine.
-/

namespace CookingIsa.CommandLine

/-- The text filled up with blanks to a width. -/
def padded (width : Nat) (text : String) : String :=
  text ++ String.ofList (List.replicate (width - text.length) ' ')

def line (text : String) : String := text ++ "\n"

def lines (texts : List String) : String := String.join (texts.map line)

/-- An event on a line of the log. The layout is that of this project: it stands for what a library
for logs would print, with the time and the place, and no statement rests on it. -/
def eventLine (e : Event) : String :=
  let shown := e.fields.map fun field => field.1 ++ "=" ++ field.2
  line (String.intercalate " " (e.level.name :: e.message :: shown))

def tableReport (title : String) (s : InstructionSet) : String :=
  let rows := s.entries.map fun i =>
    padded 12 i.name ++ " " ++ i.layout.name ++ " " ++ i.pattern.text ++ "  " ++ i.usage
  lines ([s!"{title} ({s.size} instructions)", ""] ++ rows)

def listingReport (s : InstructionSet) : String :=
  line ((Json.Value.array (s.entries.map Instruction.listing)).pretty "")

/-- The fixed fields of a word, indented. -/
def fieldsText (w : Word) : String :=
  let hex (count n : Nat) : String := Word.hexText count (BitVec.ofNat 32 n)
  s!"            op={hex 2 w.opcode} rs={w.rs} rt={w.rt} rd={w.rd} shamt={w.shamt} " ++
    s!"funct={hex 2 w.funct} imm={hex 4 w.imm16}"

def wordReport (s : InstructionSet) (w : Word) : String :=
  let shown := match s.decode? w with
    | some d => d.text
    | none => "<" ++ noMatchMessage w ++ ">"
  lines [w.text ++ "  " ++ shown, fieldsText w]

variable {κ : Type}

/-- The contents of all registers, four to a line. -/
def registersReport (r : RegisterFile) : String :=
  let shown := r.toList.mapIdx fun n w => "$" ++ padded 4 (Register.name n) ++ "=" ++ w.text
  let row (i : Nat) : String := String.intercalate " " ((shown.drop (4 * i)).take 4)
  lines ((List.range 8).map row)

/-- The registers and the targets of the branches, if there were any. -/
def stateReport (m : Machine κ) : String :=
  registersReport m.registers ++
    match m.branches with
    | [] => ""
    | targets =>
      line ("branches: [" ++ String.intercalate ", " (targets.map fun t => toString t) ++ "]")

def faultValue (r : FaultRecord) : Json.Value :=
  .object
    [("mnemonic", .text r.mnemonic), ("word", .number r.word.toNat),
     ("cause", match r.kind.cause? with
       | some code => .number code
       | none => .null),
     ("message", .text r.message)]

def stateListing (m : Machine κ) : String :=
  let register (n : Nat) : Option Json.Value := (m.registers.get? n).map fun w =>
    .object [("name", .text (Register.name n)), ("value", .number w.toInt)]
  let state : Json.Value := .object
    [("registers", .array ((List.range Register.count).filterMap register)),
     ("branches", .array (m.branches.map .number)),
     ("faults", .array (m.faults.map faultValue))]
  line (state.pretty "")

end CookingIsa.CommandLine
