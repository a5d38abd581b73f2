import CookingIsa.Layout.Basic
import CookingIsa.Pattern.Basic
import CookingIsa.Text.Blank
import CookingIsa.Text.Quoted

/-!
# Reading patterns

A pattern is written from the highest bit to the lowest, and blanks may group its positions. The
positions are counted before they are read, and read from left to right before the operands are
checked for gaps.
-/

namespace CookingIsa

/-- Why a text is no pattern, or a pattern not of the layout it is declared with. -/
inductive PatternError where
  /-- The text has another number of positions than a word has bits. -/
  | length (count : Nat)
  /-- A character is neither a bit nor the letter of an operand. -/
  | char (c : Char)
  /-- A letter stands apart from where it stood before. -/
  | scattered (letter : Char)
  /-- An operand has no field while a later one has. -/
  | gap (operand : Nat)
  /-- The fields do not fit the layout. -/
  | misfit (layout : Layout) (violation : Layout.Violation)
deriving DecidableEq, Repr

def PatternError.message : PatternError → String
  | length count => s!"template has {count} bit positions, expected 32"
  | char c => s!"invalid template character {Text.quoteChar c}"
  | scattered letter => "operand field `" ++ letter.toString ++ "` is not contiguous"
  | gap operand => s!"operand {operand} has no field while a later operand does"
  | misfit layout violation =>
    s!"layout does not fit the {layout.name} format: {violation.message}"

namespace Pattern

/-- Reads positions to the left of `marks`, which are those read before. -/
def readMarks : List Char → (marks : List Mark) → Except PatternError (List Mark)
  | [], marks => .ok marks
  | c :: cs, marks =>
    match Mark.ofChar? c with
    | none => .error (.char c)
    | some m => if m.Splits marks then .error (.scattered c) else readMarks cs (m :: marks)

theorem length_of_readMarks {cs : List Char} {marks result : List Mark}
    (h : readMarks cs marks = .ok result) : result.length = cs.length + marks.length := by
  induction cs generalizing marks with
  | nil =>
    cases h
    simp
  | cons c cs ih =>
    unfold readMarks at h
    split at h
    · cases h
    · split at h
      · cases h
      · rw [ih h, List.length_cons, List.length_cons]
        omega

theorem unbroken_of_readMarks {cs : List Char} {marks result : List Mark}
    (h : readMarks cs marks = .ok result) (hm : Unbroken marks) : Unbroken result := by
  induction cs generalizing marks with
  | nil =>
    cases h
    exact hm
  | cons c cs ih =>
    unfold readMarks at h
    split at h
    · cases h
    · split at h
      · cases h
      · exact ih h ⟨by assumption, hm⟩

/-- The number of operands before the first that is not used. -/
def leadingOperands (marks : List Mark) : Nat :=
  ((List.finRange 3).takeWhile fun k => Mark.operand k ∈ marks).length

def parse (text : String) : Except PatternError Pattern :=
  let positions := text.toList.filter fun c => !Text.isBlank c
  if hlen : positions.length = Word.bits then
    match h : readMarks positions [] with
    | .error e => .error e
    | .ok marks =>
      if hgap : Gapless marks then
        .ok ⟨marks, by simp [length_of_readMarks h, hlen], unbroken_of_readMarks h trivial, hgap⟩
      else .error (.gap (leadingOperands marks))
  else .error (.length positions.length)

end Pattern

end CookingIsa
