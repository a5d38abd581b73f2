import Mathlib
import CookingIsa.Pattern.Parser
import CookingIsa.Proofs.Pattern

/-!
# Which texts are patterns

Reading a text and writing a pattern are the two directions of one relation: a text is read as the
pattern whose marks are written as its characters (`parse_eq_ok_iff`). The positions of each letter
in such a text are one run, which is where the field of its operand lies (`isRun_field`), and every
text of the right length whose letters stand so is read (`exists_parse_eq_ok_iff`).
-/

namespace CookingIsa

namespace Mark

theorem ofChar?_eq_some_iff {c : Char} {m : Mark} : ofChar? c = some m ↔ m.toChar = c := by
  constructor
  · intro h
    unfold ofChar? at h
    split at h <;> cases h <;> rfl
  · rintro rfl
    exact m.ofChar?_toChar

theorem toChar_injective : Function.Injective toChar := by
  intro m n h
  have hm := m.ofChar?_toChar
  rw [h, n.ofChar?_toChar, Option.some.injEq] at hm
  exact hm.symm

end Mark

namespace Unbroken

variable {marks : List Mark}

theorem of_append : ∀ {before : List Mark}, Unbroken (before ++ marks) → Unbroken marks
  | [], h => h
  | _ :: _, h => of_append h.2

/-- Marks of which each operand's are one run are not broken. -/
theorem of_runs : ∀ {marks : List Mark}, (∀ m : Mark, m.isBit = false → ∃ lsb width : Nat, ∀ i,
    marks[i]? = some m ↔ lsb ≤ i ∧ i < lsb + width) → Unbroken marks
  | [], _ => trivial
  | a :: marks, h => by
    refine ⟨?_, of_runs fun m hm => ?_⟩
    · rintro ⟨ha, hmem, hhead⟩
      obtain ⟨lsb, width, hrun⟩ := h a ha
      obtain ⟨j, hj⟩ := List.getElem?_of_mem hmem
      have hfirst := (hrun 0).1 rfl
      have hlater := (hrun (j + 1)).1 hj
      have hsecond := (hrun 1).2 ⟨by omega, by omega⟩
      rw [List.getElem?_cons_succ, ← List.head?_eq_getElem?] at hsecond
      exact hhead hsecond
    · obtain ⟨lsb, width, hrun⟩ := h m hm
      -- The run of the whole, moved down by one, loses the bit that falls off.
      refine ⟨lsb - 1, lsb + width - 1 - (lsb - 1), fun i => ?_⟩
      have hi := hrun (i + 1)
      rw [List.getElem?_cons_succ] at hi
      rw [hi]
      omega

end Unbroken

namespace Pattern

/-- The letter of an operand. -/
def letter : Fin 3 → Char
  | 0 => 'f'
  | 1 => 's'
  | 2 => 't'

/-- The characters of a text that stand for bits, the lowest bit first. -/
def bitChars (text : String) : List Char := (text.toList.filter fun c => !Text.isBlank c).reverse

/-- The bits that are written as `c` are the `width` bits from bit `lsb` upwards. -/
def IsRun (chars : List Char) (c : Char) (lsb width : Nat) : Prop :=
  ∀ i, chars[i]? = some c ↔ lsb ≤ i ∧ i < lsb + width

/-- The operands whose letters are written. -/
def written (chars : List Char) : List (Fin 3) :=
  (List.finRange 3).filter fun k => letter k ∈ chars

/-- Characters that make a pattern. There are 32, each a bit or the letter of an operand; each
letter is written in one run, and none without those before it. -/
structure WellWritten (chars : List Char) : Prop where
  length_eq : chars.length = 32
  mem_chars : ∀ c ∈ chars, c = '0' ∨ c = '1' ∨ ∃ k, c = letter k
  isRun : ∀ k, ∃ lsb width, IsRun chars (letter k) lsb width
  initial : ∀ j k : Fin 3, j < k → letter k ∈ chars → letter j ∈ chars

theorem toChar_operand (k : Fin 3) : (Mark.operand k).toChar = letter k := by
  fin_cases k <;> rfl

/-- A character that may be written is that of a mark. -/
theorem exists_toChar_eq_iff {c : Char} :
    (∃ m : Mark, m.toChar = c) ↔ c = '0' ∨ c = '1' ∨ ∃ k, c = letter k := by
  constructor
  · rintro ⟨(_ | _) | k, rfl⟩
    · exact .inl rfl
    · exact .inr (.inl rfl)
    · exact .inr (.inr ⟨k, toChar_operand k⟩)
  · rintro (rfl | rfl | ⟨k, rfl⟩)
    · exact ⟨.bit false, rfl⟩
    · exact ⟨.bit true, rfl⟩
    · exact ⟨.operand k, toChar_operand k⟩

/-- Run ends are determined by the bits of the run, if there is one. -/
theorem IsRun.unique {chars : List Char} {c : Char} {lsb width lsb' width' : Nat}
    (h : IsRun chars c lsb width) (h' : IsRun chars c lsb' width') (hpos : 0 < width) :
    lsb = lsb' ∧ width = width' := by
  have hsame : ∀ i, (lsb ≤ i ∧ i < lsb + width) ↔ lsb' ≤ i ∧ i < lsb' + width' :=
    fun i => (h i).symm.trans (h' i)
  have hfirst := (hsame lsb).1 ⟨by omega, by omega⟩
  have hlast := (hsame (lsb + width - 1)).1 ⟨by omega, by omega⟩
  have hfirst' := (hsame lsb').2 ⟨by omega, by omega⟩
  have hlast' := (hsame (lsb' + width' - 1)).2 ⟨by omega, by omega⟩
  omega

section Marks

variable {marks : List Mark} {k : Fin 3}

theorem getElem?_map_toChar {m : Mark} {i : Nat} :
    (marks.map Mark.toChar)[i]? = some m.toChar ↔ marks[i]? = some m := by
  rw [List.getElem?_map, Option.map_eq_some_iff]
  constructor
  · rintro ⟨n, hn, hchar⟩
    rwa [Mark.toChar_injective hchar] at hn
  · exact fun h => ⟨m, h, rfl⟩

theorem letter_mem_iff : letter k ∈ marks.map Mark.toChar ↔ Mark.operand k ∈ marks := by
  rw [← toChar_operand, List.mem_map_of_injective Mark.toChar_injective]

theorem isRun_iff {lsb width : Nat} : IsRun (marks.map Mark.toChar) (letter k) lsb width ↔
    ∀ i, marks[i]? = some (.operand k) ↔ lsb ≤ i ∧ i < lsb + width := by
  simp only [IsRun, ← toChar_operand, getElem?_map_toChar]

end Marks

/-- Characters are read to the left of marks as what they are the characters of, as long as no
letter is torn apart. -/
theorem readMarks_eq_ok_iff {result : List Mark} : ∀ {cs : List Char} {marks : List Mark},
    Unbroken marks → (readMarks cs marks = .ok result ↔
      result.map Mark.toChar = cs.reverse ++ marks.map Mark.toChar ∧ Unbroken result)
  | [], marks, hmarks => by
    simp only [readMarks, Except.ok.injEq, List.reverse_nil, List.nil_append]
    constructor
    · rintro rfl
      exact ⟨rfl, hmarks⟩
    · exact fun h => (List.map_injective_iff.2 Mark.toChar_injective h.1).symm
  | c :: cs, marks, hmarks => by
    have hcons : ∀ {m : Mark}, m.toChar = c → (c :: cs).reverse ++ marks.map Mark.toChar =
        cs.reverse ++ (m :: marks).map Mark.toChar := by
      rintro m rfl
      simp
    unfold readMarks
    rcases hc : Mark.ofChar? c with _ | m
    · simp only [reduceCtorEq, false_iff, not_and]
      intro hresult
      have hmem : c ∈ result.map Mark.toChar := by
        rw [hresult]
        simp
      obtain ⟨m, -, hm⟩ := List.mem_map.1 hmem
      rw [Mark.ofChar?_eq_some_iff.2 hm] at hc
      cases hc
    · have hm := Mark.ofChar?_eq_some_iff.1 hc
      simp only
      rw [hcons hm]
      split_ifs with hsplits
      · simp only [false_iff, not_and]
        intro hresult hunbroken
        obtain ⟨before, rest, rfl, -, hrest⟩ := List.map_eq_append_iff.1 hresult
        obtain rfl := List.map_injective_iff.2 Mark.toChar_injective hrest
        exact hunbroken.of_append.1 hsplits
      · exact readMarks_eq_ok_iff ⟨hsplits, hmarks⟩

/-- A text is read as the pattern that is written like it, but for blanks. -/
theorem parse_eq_ok_iff {text : String} {p : Pattern} :
    parse text = .ok p ↔ p.marks.map Mark.toChar = bitChars text := by
  have hread : ∀ {marks}, readMarks (text.toList.filter fun c => !Text.isBlank c) [] = .ok marks ↔
      marks.map Mark.toChar = bitChars text ∧ Unbroken marks := by
    intro marks
    rw [readMarks_eq_ok_iff (show Unbroken [] from trivial), List.map_nil, List.append_nil]
    rfl
  constructor
  · intro h
    simp only [parse] at h
    split at h
    · split at h
      · cases h
      · rename_i marks hmarks
        split at h
        · cases h
          exact (hread.1 hmarks).1
        · cases h
    · cases h
  · intro h
    have hlen : (text.toList.filter fun c => !Text.isBlank c).length = Word.bits := by
      rw [← p.length_marks, ← List.length_map (f := Mark.toChar), h, bitChars, List.length_reverse]
    have hmarks := hread.2 ⟨h, p.unbroken⟩
    simp only [parse]
    rw [dif_pos hlen]
    split
    · rename_i e he
      rw [hmarks] at he
      cases he
    · rename_i marks he
      obtain rfl : p.marks = marks := Except.ok.inj (hmarks.symm.trans he)
      rw [dif_pos p.gapless]

variable (p : Pattern)

theorem isRun_field (k : Fin 3) :
    IsRun (p.marks.map Mark.toChar) (letter k) (p.field k).lsb (p.field k).width :=
  isRun_iff.2 fun i => (p.covers_field_iff k i).symm

theorem wellWritten : WellWritten (p.marks.map Mark.toChar) where
  length_eq := by rw [List.length_map, p.length_marks]
  mem_chars c hc := by
    obtain ⟨m, -, hm⟩ := List.mem_map.1 hc
    exact exists_toChar_eq_iff.1 ⟨m, hm⟩
  isRun k := ⟨_, _, p.isRun_field k⟩
  initial j k hjk hk := letter_mem_iff.2 (p.gapless j k hjk (letter_mem_iff.1 hk))

theorem exists_marks_of_wellWritten {chars : List Char} (h : WellWritten chars) :
    ∃ p : Pattern, p.marks.map Mark.toChar = chars := by
  have hmarks : chars ∈ Set.range (List.map Mark.toChar) := by
    rw [Set.range_list_map]
    exact fun c hc => exists_toChar_eq_iff.2 (h.mem_chars c hc)
  obtain ⟨marks, rfl⟩ := hmarks
  have hlen : marks.length = Word.bits := (List.length_map _).symm.trans h.length_eq
  refine ⟨⟨marks, hlen, .of_runs fun m hm => ?_, ?_⟩, rfl⟩
  · rcases m with b | k
    · cases hm
    · obtain ⟨lsb, width, hrun⟩ := h.isRun k
      exact ⟨lsb, width, isRun_iff.1 hrun⟩
  · exact fun j k hjk hk => letter_mem_iff.1 (h.initial j k hjk (letter_mem_iff.2 hk))

/-- The texts that are read are the well-written ones. -/
theorem exists_parse_eq_ok_iff {text : String} :
    (∃ p, parse text = .ok p) ↔ WellWritten (bitChars text) := by
  constructor
  · rintro ⟨p, hp⟩
    rw [← parse_eq_ok_iff.1 hp]
    exact p.wellWritten
  · intro h
    obtain ⟨p, hp⟩ := exists_marks_of_wellWritten h
    exact ⟨p, parse_eq_ok_iff.2 hp⟩

end Pattern

end CookingIsa
