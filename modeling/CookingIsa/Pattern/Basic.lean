import CookingIsa.Field

/-!
# Patterns

A pattern says what an instruction requires of each bit of its word: the bit is fixed, or it belongs
to one of at most three operands. The fixed bits are what a word is matched against, and the bits of
an operand, which lie side by side, are its field.
-/

namespace CookingIsa

/-- What a pattern says of one bit: its value, or the operand it belongs to. -/
inductive Mark where
  | bit (value : Bool)
  | operand (index : Fin 3)
deriving DecidableEq, Repr

namespace Mark

/-- The mark a character stands for; the letters `f`, `s` and `t` are the operands in order. -/
def ofChar? : Char → Option Mark
  | '0' => some (bit false)
  | '1' => some (bit true)
  | 'f' => some (operand 0)
  | 's' => some (operand 1)
  | 't' => some (operand 2)
  | _ => none

def toChar : Mark → Char
  | bit false => '0'
  | bit true => '1'
  | operand 0 => 'f'
  | operand 1 => 's'
  | operand 2 => 't'

def isBit : Mark → Bool
  | bit _ => true
  | operand _ => false

/-- Whether the mark fixes its bit to one. -/
def isOne : Mark → Bool
  | bit value => value
  | operand _ => false

theorem ofChar?_toChar (m : Mark) : ofChar? m.toChar = some m := by
  rcases m with (_ | _) | k
  · rfl
  · rfl
  · rcases k with ⟨_ | _ | _ | k, hk⟩
    · rfl
    · rfl
    · rfl
    · omega

end Mark

/-- A mark that would stand apart from the same operand's other bits, put in front of `marks`. -/
def Mark.Splits (m : Mark) (marks : List Mark) : Prop :=
  m.isBit = false ∧ m ∈ marks ∧ marks.head? ≠ some m

instance (m : Mark) (marks : List Mark) : Decidable (m.Splits marks) :=
  inferInstanceAs (Decidable (_ ∧ _))

/-- The bits of each operand lie side by side. -/
def Unbroken : List Mark → Prop
  | [] => True
  | m :: marks => ¬ m.Splits marks ∧ Unbroken marks

/-- No operand is missing before one that is used. -/
def Gapless (marks : List Mark) : Prop :=
  ∀ j k : Fin 3, j < k → Mark.operand k ∈ marks → Mark.operand j ∈ marks

instance (marks : List Mark) : Decidable (Gapless marks) :=
  inferInstanceAs (Decidable (∀ _, _))

/-- A mark for each bit of a word, the lowest bit first. -/
structure Pattern where
  marks : List Mark
  length_marks : marks.length = Word.bits
  unbroken : Unbroken marks
  gapless : Gapless marks

namespace Pattern

instance : DecidableEq Pattern := fun a b =>
  decidable_of_iff (a.marks = b.marks)
    ⟨fun h => by cases a; cases b; cases h; rfl, fun h => h ▸ rfl⟩

/-- The word with the bits set that `holds` of their marks. -/
def wordOf (p : Pattern) (holds : Mark → Bool) : Word :=
  (BitVec.ofBoolListLE (p.marks.map holds)).cast (by simp [p.length_marks])

/-- The fixed bits. -/
def mask (p : Pattern) : Word := p.wordOf Mark.isBit

/-- The values of the fixed bits, all other bits being zero. -/
def expected (p : Pattern) : Word := p.wordOf Mark.isOne

def operands (p : Pattern) : List (Fin 3) :=
  (List.finRange 3).filter fun k => Mark.operand k ∈ p.marks

def field (p : Pattern) (k : Fin 3) : Field where
  operand := k
  lsb := p.marks.idxOf (.operand k)
  width := p.marks.count (.operand k)

def fields (p : Pattern) : List Field := p.operands.map p.field

/-- A word matches when it has the fixed bits of the pattern. -/
def Matches (p : Pattern) (w : Word) : Prop := w &&& p.mask = p.expected

instance (p : Pattern) (w : Word) : Decidable (p.Matches w) :=
  inferInstanceAs (Decidable (_ = _))

/-- Two patterns overlap unless they fix some bit to different values. -/
def Overlaps (a b : Pattern) : Prop :=
  (a.expected ^^^ b.expected) &&& (a.mask &&& b.mask) = 0#32

instance (a b : Pattern) : Decidable (a.Overlaps b) :=
  inferInstanceAs (Decidable (_ = _))

/-- The pattern written from the highest bit to the lowest. -/
def text (p : Pattern) : String := String.ofList (p.marks.reverse.map Mark.toChar)

theorem getLsbD_wordOf (p : Pattern) (holds : Mark → Bool) (i : Nat) :
    (p.wordOf holds).getLsbD i = (p.marks.map holds).getD i false := by
  simp [wordOf]

theorem length_fields_le (p : Pattern) : p.fields.length ≤ 3 := by
  simp only [fields, List.length_map]
  exact Nat.le_trans (List.length_filter_le _ _) (by simp)

end Pattern

end CookingIsa
