import Mathlib
import CookingIsa.InstructionSet.Decoding
import CookingIsa.Proofs.ChefTable
import CookingIsa.Proofs.Layout
import CookingIsa.Proofs.PatternMeaning

/-!
# Chef Assembly by the fixed fields of a word

A pattern whose fixed bits are whole fields asks for the values of these fields
(`matches_iff_extract`). Every line of the table is such a pattern, with its operands in the other
fields (`describes_instructions`), so the table is a switch on the opcode and the function code
(`decode?_eq_ofFields?`).
-/

namespace CookingIsa

/-! ## Fields with fixed values -/

namespace Pattern

theorem and_covered_eq_iff {fields : List Field} {v w : Word} :
    v &&& covered fields = w &&& covered fields ↔ ∀ f ∈ fields, f.extract v = f.extract w := by
  simp only [Field.extract_eq_extract_iff, Word.and_eq_and_iff, getLsbD_covered, List.any_eq_true]
  constructor
  · intro h f hf i hi
    exact h i ⟨f, hf, hi⟩
  · rintro h i ⟨f, hf, hi⟩
    exact h f hf i hi

variable (p : Pattern)

/-- If the fixed bits are those of some fields, a word matches if these fields have the values that
are asked for. -/
theorem matches_iff_extract {fields : List Field} (h : p.mask = covered fields) {w : Word} :
    p.Matches w ↔ ∀ f ∈ fields, f.extract w = f.extract p.expected := by
  rw [← and_covered_eq_iff, ← h, show p.expected &&& p.mask = p.expected from p.matches_expected]
  rfl

end Pattern

namespace Word

/-- The low half of a word as a signed number. -/
def immediate (w : Word) : Int := (w.imm16 : Int).bmod (2 ^ 16)

/-- The parts of a word at fixed places. -/
inductive Part where
  | opcode | rs | rt | rd | shamt | funct | imm16
deriving DecidableEq

namespace Part

def value (w : Word) : Part → Nat
  | opcode => w.opcode
  | rs => w.rs
  | rt => w.rt
  | rd => w.rd
  | shamt => w.shamt
  | funct => w.funct
  | imm16 => w.imm16

/-- The operand that the part stands for. -/
def operand (w : Word) : Part → Int
  | imm16 => w.immediate
  | part => part.value w

/-- The part as the field of an operand. -/
def field (k : Nat) : Part → Field
  | opcode => ⟨k, 26, 6⟩
  | rs => ⟨k, rsPosition, registerWidth⟩
  | rt => ⟨k, rtPosition, registerWidth⟩
  | rd => ⟨k, rdPosition, registerWidth⟩
  | shamt => ⟨k, 6, 5⟩
  | funct => ⟨k, 0, 6⟩
  | imm16 => ⟨k, 0, immediateWidth⟩

theorem width_field_le (part : Part) (k : Nat) : (part.field k).width ≤ 16 := by
  cases part <;> simp [field, registerWidth]

theorem toNat_extract_field (part : Part) (k : Nat) (w : Word) :
    ((part.field k).extract w).toNat = part.value w := by
  have hfive : lowMask 5 = 0x1f#32 := rfl
  have hsix : lowMask 6 = 0x3f#32 := rfl
  have hsixteen : lowMask 16 = 0xffff#32 := rfl
  cases part <;>
    simp only [Field.extract, field, hfive, hsix, hsixteen, BitVec.ushiftRight_zero] <;> rfl

theorem operand_of_ne {part : Part} (h : part ≠ imm16) (w : Word) :
    part.operand w = part.value w := by
  cases part
  case imm16 => exact absurd rfl h
  all_goals rfl

theorem operandOf_field {l : Layout} {part : Part} {k : Nat} (h : part = imm16 ↔ l.IsImmediate k)
    (w : Word) : l.operandOf w (part.field k) = part.operand w := by
  have hvalue := part.toNat_extract_field k w
  have hlt := (part.field k).toNat_extract_lt w
  have hoperand : (part.field k).operand = k := by cases part <;> rfl
  have hwidth : 2 ^ (part.field k).width ≤ 2 ^ 16 :=
    Nat.pow_le_pow_right (by omega) (part.width_field_le k)
  rw [Layout.operandOf, hoperand]
  split_ifs with himm
  · obtain rfl := h.2 himm
    have hsixteen : (imm16.field k).width = 16 := rfl
    rw [hsixteen, signedLow_eq_bmod _ (by decide) (by decide), hvalue]
    rfl
  · rw [operand_of_ne (mt h.1 himm), BitVec.toInt_eq_toNat_of_lt (by omega), hvalue]

end Part

end Word

namespace ChefAssembly

open Word (Part)

/-- A name with operands, for a word that has nothing in the fields that are unused. -/
def ifEmpty (unused : List Nat) (name : String) (operands : List Int) :
    Option (String × List Int) :=
  if ∀ n ∈ unused, n = 0 then some (name, operands) else none

/-- What a word with opcode 0 and no shift amount says, by its function code. -/
def ofFunct? (w : Word) : Option (String × List Int) :=
  match w.funct with
  | 32 => some ("mix", [w.rd, w.rs, w.rt])
  | 26 => some ("chop", [w.rd, w.rs, w.rt])
  | 34 => some ("spill", [w.rd, w.rs, w.rt])
  | 24 => some ("bake", [w.rd, w.rs, w.rt])
  | 33 => ifEmpty [w.rt] "plate" [w.rd, w.rs]
  | 8 => ifEmpty [w.rs, w.rt] "salt" [w.rd]
  | 15 => ifEmpty [w.rs, w.rt] "pepper" [w.rd]
  | 45 => ifEmpty [w.rs, w.rt] "throw_out" [w.rd]
  | 12 => ifEmpty [w.rs, w.rt, w.rd] "serve" []
  | 59 => ifEmpty [w.rs, w.rt, w.rd] "protein" []
  | 43 => ifEmpty [w.rs, w.rt, w.rd] "grains" []
  | 25 => ifEmpty [w.rs, w.rt, w.rd] "vegetable" []
  | 40 => ifEmpty [w.rs, w.rt, w.rd] "fruit" []
  | 51 => ifEmpty [w.rs, w.rt, w.rd] "dairy" []
  | 57 => ifEmpty [w.rs, w.rt, w.rd] "present" []
  | _ => none

/-- The name and the operands that a word says by its fixed fields. -/
def ofFields? (w : Word) : Option (String × List Int) :=
  match w.opcode with
  | 8 => some ("season", [w.rt, w.rs, w.immediate])
  | 4 => some ("taste", [w.rt, w.rs, w.immediate])
  | 43 => some ("to_fridge", [w.rt, w.rs, w.immediate])
  | 35 => some ("from_fridge", [w.rt, w.rs, w.immediate])
  | 47 => ifEmpty [w.shamt, w.funct] "blend" [w.rd, w.rs, w.rt]
  | 0 => if w.shamt = 0 then ofFunct? w else none
  | _ => none

/-- An instruction by the parts that have a fixed value and those of its operands. -/
structure Line where
  name : String
  fixed : List (Part × Nat)
  operands : List Part

namespace Line

/-- The word has the fixed values. -/
def Fits (l : Line) (w : Word) : Prop := ∀ x ∈ l.fixed, x.1.value w = x.2

instance (l : Line) (w : Word) : Decidable (l.Fits w) :=
  inferInstanceAs (Decidable (∀ x ∈ _, _))

/-- The name and the operands that a word has by the first of the lines that it fits. -/
def read? (w : Word) : List Line → Option (String × List Int)
  | [] => none
  | l :: lines =>
    if l.Fits w then some (l.name, l.operands.map (Part.operand w)) else read? w lines

/-- The pattern of the instruction fixes the parts of the line, and its fields are the others. -/
def Describes (l : Line) (i : Instruction) : Prop :=
  i.name = l.name ∧ i.pattern.mask = Pattern.covered (l.fixed.map fun x => x.1.field 0) ∧
    l.Fits i.pattern.expected ∧ i.pattern.fields = l.operands.mapIdx (fun k part => part.field k) ∧
    ∀ x ∈ l.operands.zipIdx, x.1 = .imm16 ↔ i.layout.IsImmediate x.2

instance (l : Line) (i : Instruction) : Decidable (l.Describes i) :=
  inferInstanceAs (Decidable (_ ∧ _))

/-- An instruction with its own opcode, two registers and an immediate. -/
def immediate (name : String) (opcode : Nat) : Line :=
  ⟨name, [(.opcode, opcode)], [.rt, .rs, .imm16]⟩

/-- An instruction on registers without a shift amount. -/
def registers (name : String) (opcode funct : Nat) (unused operands : List Part) : Line :=
  ⟨name, (.opcode, opcode) :: (.shamt, 0) :: (.funct, funct) :: unused.map (·, 0), operands⟩

end Line

/-- The table by the fixed fields. -/
def lines : List Line :=
  [.immediate "season" 8,
   .registers "mix" 0 32 [] [.rd, .rs, .rt],
   .registers "chop" 0 26 [] [.rd, .rs, .rt],
   .registers "spill" 0 34 [] [.rd, .rs, .rt],
   .registers "bake" 0 24 [] [.rd, .rs, .rt],
   .immediate "taste" 4,
   .registers "serve" 0 12 [.rs, .rt, .rd] [],
   .immediate "to_fridge" 43,
   .immediate "from_fridge" 35,
   .registers "plate" 0 33 [.rt] [.rd, .rs],
   .registers "protein" 0 59 [.rs, .rt, .rd] [],
   .registers "grains" 0 43 [.rs, .rt, .rd] [],
   .registers "vegetable" 0 25 [.rs, .rt, .rd] [],
   .registers "fruit" 0 40 [.rs, .rt, .rd] [],
   .registers "dairy" 0 51 [.rs, .rt, .rd] [],
   .registers "present" 0 57 [.rs, .rt, .rd] [],
   .registers "salt" 0 8 [.rs, .rt] [.rd],
   .registers "pepper" 0 15 [.rs, .rt] [.rd],
   .registers "blend" 47 0 [] [.rd, .rs, .rt],
   .registers "throw_out" 0 45 [.rs, .rt] [.rd]]

theorem describes_instructions : List.Forall₂ Line.Describes lines instructions := by
  decide +kernel

namespace Line

variable {l : Line} {i : Instruction}

theorem Describes.matches_iff (h : l.Describes i) {w : Word} : i.pattern.Matches w ↔ l.Fits w := by
  obtain ⟨-, hmask, hexpected, -⟩ := h
  simp only [i.pattern.matches_iff_extract hmask, List.forall_mem_map, ← BitVec.toNat_inj,
    Part.toNat_extract_field]
  exact forall₂_congr fun x hx => by rw [hexpected x hx]

theorem Describes.operands_eq (h : l.Describes i) (w : Word) :
    (i.operandsOf w).toList = l.operands.map (Part.operand w) := by
  obtain ⟨-, -, -, hfields, himm⟩ := h
  have hlist : (i.operandsOf w).toList = i.pattern.fields.map (i.layout.operandOf w) := rfl
  rw [hlist, hfields]
  refine List.ext_getElem? fun k => ?_
  simp only [List.getElem?_map, List.getElem?_mapIdx, Option.map_map]
  rcases hk : l.operands[k]? with _ | part
  · rfl
  · have hmem : (part, k) ∈ l.operands.zipIdx := List.mem_zipIdx_iff_getElem?.2 hk
    exact congrArg some (Part.operandOf_field (himm _ hmem) w)

/-- Looking a word up among instructions is going through the lines that describe them. -/
theorem map_find?_eq_read? {w : Word} : ∀ {lines : List Line} {entries : List Instruction},
    List.Forall₂ Describes lines entries →
      (entries.find? fun i => i.pattern.Matches w).map
          (fun i => (i.name, (i.operandsOf w).toList)) = read? w lines
  | _, _, .nil => rfl
  | l :: lines, i :: entries, .cons h hs => by
    simp only [List.find?_cons, read?, h.matches_iff]
    split_ifs with hfits
    · simp only [hfits, decide_true, Option.map_some, h.1, h.operands_eq]
    · simp only [hfits, decide_false, map_find?_eq_read? hs]

variable {name : String} {opcode funct : Nat} {unused operands : List Part} {lines : List Line}
  {w : Word}

theorem read?_nil : read? w [] = none := rfl

theorem read?_immediate : read? w (immediate name opcode :: lines) =
    if w.opcode = opcode then some (name, [(w.rt : Int), w.rs, w.immediate]) else read? w lines := by
  simp only [read?, immediate, Fits, List.forall_mem_singleton]
  rfl

theorem read?_registers : read? w (registers name opcode funct unused operands :: lines) =
    if w.opcode = opcode ∧ w.shamt = 0 ∧ w.funct = funct ∧
        ∀ n ∈ unused.map (Part.value w), n = 0 then
      some (name, operands.map (Part.operand w))
    else read? w lines := by
  simp only [read?, registers, Fits, List.forall_mem_cons, List.forall_mem_map]
  rfl

end Line

theorem read?_lines (w : Word) : Line.read? w lines = ofFields? w := by
  simp only [lines, Line.read?_immediate, Line.read?_registers, Line.read?_nil, List.map_cons,
    List.map_nil, Part.value, Part.operand]
  -- The lines are now one chain of tests, and each case of the switch settles all of them but those
  -- on the fields that are unused.
  fun_cases ofFields? w
  case case5 hopcode => simp [hopcode, ifEmpty]
  case case6 hopcode hshamt =>
    simp only [hopcode, hshamt]
    fun_cases ofFunct? w
    case case16 => simp_all
    all_goals simp [*, ifEmpty]
  case case8 => simp_all
  all_goals simp [*]

/-- The instructions of the table make a set, and every word is decoded in it by its fixed fields,
or not at all if they say nothing. -/
theorem decode?_eq_ofFields? : ∃ s, instructionSet = .ok s ∧ ∀ w,
    (s.decode? w).map (fun d => (d.word, d.instruction.name, d.operands.toList)) =
      (ofFields? w).map fun x => (w, x.1, x.2) := by
  refine ⟨complete, instructionSet_eq, fun w => ?_⟩
  rw [← read?_lines, ← Line.map_find?_eq_read? describes_instructions, InstructionSet.decode?,
    Option.map_map, Option.map_map]
  rfl

end ChefAssembly

end CookingIsa
