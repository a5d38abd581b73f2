import Mathlib
import CookingIsa.Proofs.Misreading

/-!
# The views of a pattern agree

A pattern can be seen as the text it is written as, as its fixed bits with their values, and as its
fields. Each view says of every bit what its mark says (`getElem?_text`, `getLsbD_mask_of_mark`,
`covers_field_iff`), so the views fit together and each tells patterns apart (`views_agree`).
-/

namespace CookingIsa.Pattern

/-- The bits that belong to one of the fields. -/
def covered (fields : List Field) : Word := fields.foldr (fun f v => f.mask ||| v) 0#32

/-- The word has each bit that is written, the highest bit first. -/
def HasWritten (chars : List Char) (w : Word) : Prop :=
  ∀ j : Nat,
    (chars[j]? = some '0' → w.getMsbD j = false) ∧ (chars[j]? = some '1' → w.getMsbD j = true)

/-- No position is written as zero in one and as one in the other. -/
def Compatible (chars chars' : List Char) : Prop :=
  ∀ j : Nat, ¬ (chars[j]? = some '0' ∧ chars'[j]? = some '1') ∧
    ¬ (chars[j]? = some '1' ∧ chars'[j]? = some '0')

/-- The text, the fixed bits and the fields of a pattern fit together. -/
structure Coherent (p : Pattern) : Prop where
  apart : (p.mask :: p.fields.map Field.mask).Pairwise fun v w => v &&& w = 0#32
  covering : p.mask ||| covered p.fields = BitVec.allOnes 32
  expected_fixed : p.expected &&& ~~~p.mask = 0#32
  parse_text : parse p.text = .ok p
  text_eq : ∀ text, parse text = .ok p → p.text.toList = positions text
  matches_iff : ∀ w, p.Matches w ↔ HasWritten p.text.toList w

/-! ## Fixed bits and fields -/

theorem getLsbD_covered (i : Nat) : ∀ fields : List Field,
    (covered fields).getLsbD i = fields.any fun f => f.mask.getLsbD i
  | [] => by simp [covered]
  | f :: fields => by
    have ih := getLsbD_covered i fields
    simp only [covered, List.foldr_cons, List.any_cons] at ih ⊢
    rw [BitVec.getLsbD_or, ih]

variable (p q : Pattern)

theorem mask_and_mask_field (k : Fin 3) : p.mask &&& (p.field k).mask = 0#32 := by
  refine p.word_ext fun i m hm => ?_
  rw [BitVec.getLsbD_and, p.getLsbD_mask_of_mark hm, p.getLsbD_mask_field k hm]
  rcases m with b | j <;> simp [Mark.isBit]

theorem masks_apart : (p.mask :: p.fields.map Field.mask).Pairwise fun v w => v &&& w = 0#32 := by
  rw [List.pairwise_cons, List.pairwise_map]
  refine ⟨fun v hv => ?_, p.fields_disjoint⟩
  obtain ⟨f, hf, rfl⟩ := List.mem_map.1 hv
  obtain ⟨k, -, rfl⟩ := p.mem_fields.1 hf
  exact p.mask_and_mask_field k

theorem mask_or_covered : p.mask ||| covered p.fields = BitVec.allOnes 32 := by
  refine p.word_ext fun i m hm => ?_
  rw [BitVec.getLsbD_or, getLsbD_covered, p.getLsbD_mask_of_mark hm, BitVec.getLsbD_allOnes,
    decide_eq_true (p.lt_of_mark hm), Bool.or_eq_true]
  rcases m with b | k
  · exact .inl rfl
  · have hmem : p.field k ∈ p.fields := p.mem_fields.2 ⟨k, List.mem_of_getElem? hm, rfl⟩
    refine .inr (List.any_eq_true.2 ⟨p.field k, hmem, ?_⟩)
    simp [p.getLsbD_mask_field k hm]

theorem expected_and_not_mask : p.expected &&& ~~~p.mask = 0#32 := by
  refine p.word_ext fun i m hm => ?_
  rw [BitVec.getLsbD_and, BitVec.getLsbD_not, p.getLsbD_expected_of_mark hm,
    p.getLsbD_mask_of_mark hm]
  rcases m with b | k <;> simp [Mark.isBit, Mark.isOne]

variable {p q}

/-- A pattern is its marks. -/
theorem eq_of_marks
    (h : ∀ (i : Nat) (m : Mark), p.marks[i]? = some m → q.marks[i]? = some m) : p = q := by
  have hmarks : p.marks = q.marks := by
    refine List.ext_getElem (p.length_marks.trans q.length_marks.symm) fun i hp hq => ?_
    have hmark := h i _ (List.getElem?_eq_getElem hp)
    rw [List.getElem?_eq_getElem hq] at hmark
    exact (Option.some.inj hmark).symm
  cases p
  cases q
  cases hmarks
  rfl

/-- Patterns with the same fixed bits and fields have the same marks: a bit is told by its value,
and a bit of a field by the operand of the field. -/
theorem eq_iff_views :
    p = q ↔ p.mask = q.mask ∧ p.expected = q.expected ∧ p.fields = q.fields := by
  constructor
  · rintro rfl
    exact ⟨rfl, rfl, rfl⟩
  · rintro ⟨hmask, hexpected, hfields⟩
    refine eq_of_marks fun i m hm => ?_
    obtain ⟨n, hn⟩ := q.exists_mark (p.lt_of_mark hm)
    rcases m with b | k
    · have hbit : true = n.isBit := by
        rw [← q.getLsbD_mask_of_mark hn, ← hmask, p.getLsbD_mask_of_mark hm, Mark.isBit]
      have hone : b = n.isOne := by
        rw [← q.getLsbD_expected_of_mark hn, ← hexpected, p.getLsbD_expected_of_mark hm, Mark.isOne]
      rcases n with c | j
      · rw [hn, hone, Mark.isOne]
      · cases hbit
    · have hmem : p.field k ∈ q.fields :=
        hfields ▸ p.mem_fields.2 ⟨k, List.mem_of_getElem? hm, rfl⟩
      obtain ⟨j, -, hj⟩ := q.mem_fields.1 hmem
      obtain rfl : j = k := Fin.ext (congrArg Field.operand hj)
      exact (q.covers_field_iff j i).1 (hj ▸ (p.covers_field_iff j i).2 hm)

/-! ## The text -/

theorem toList_text : p.text.toList = (p.marks.map Mark.toChar).reverse := by
  rw [text, String.toList_ofList, List.map_reverse]

theorem isBlank_toChar (m : Mark) : Text.isBlank m.toChar = false := by
  rcases m with (_ | _) | k
  · decide +kernel
  · decide +kernel
  · fin_cases k <;> decide +kernel

theorem positions_text : positions p.text = p.text.toList := by
  refine List.filter_eq_self.2 fun c hc => ?_
  rw [toList_text, List.mem_reverse] at hc
  obtain ⟨m, -, rfl⟩ := List.mem_map.1 hc
  rw [isBlank_toChar, Bool.not_false]

theorem parse_eq_ok_iff_text {text : String} :
    parse text = .ok p ↔ p.text.toList = positions text := by
  rw [parse_eq_ok_iff, toList_text, List.reverse_eq_iff]
  rfl

/-- A pattern is what its text is read as. -/
theorem parse_text : parse p.text = .ok p := parse_eq_ok_iff_text.2 positions_text.symm

/-- What is written at a position is the mark of the bit that many places below the highest. -/
theorem getElem?_text {j : Nat} {m : Mark} :
    p.text.toList[j]? = some m.toChar ↔ j < 32 ∧ p.marks[31 - j]? = some m := by
  have hlen : (p.marks.map Mark.toChar).length = 32 := by rw [List.length_map, p.length_marks]
  rw [toList_text]
  by_cases hj : j < 32
  · have hplace : (p.marks.map Mark.toChar).length - 1 - j = 31 - j := by omega
    rw [List.getElem?_reverse (by omega), hplace, getElem?_map_toChar, and_iff_right hj]
  · rw [List.getElem?_eq_none (by rw [List.length_reverse]; omega)]
    simp [hj]

theorem matches_iff_hasWritten {w : Word} : p.Matches w ↔ HasWritten p.text.toList w := by
  have hwritten : HasWritten p.text.toList w ↔
      ∀ (j : Nat) (b : Bool), p.text.toList[j]? = some (Mark.bit b).toChar → w.getMsbD j = b := by
    simp only [HasWritten, Bool.forall_bool]
    rfl
  rw [hwritten, p.matches_iff]
  constructor
  · intro h j b hj
    obtain ⟨hlt, hmark⟩ := getElem?_text.1 hj
    rw [BitVec.getMsbD_eq_getLsbD, h _ b hmark]
    simp [hlt]
  · intro h i b hi
    have hlt := p.lt_of_mark hi
    have hback : 31 - (31 - i) = i := by omega
    have hbit := h (31 - i) b (getElem?_text.2 ⟨by omega, by rwa [hback]⟩)
    rw [BitVec.getMsbD_eq_getLsbD] at hbit
    simpa [hback, show 31 - i < 32 by omega] using hbit

theorem overlaps_iff_compatible :
    p.Overlaps q ↔ Compatible p.text.toList q.text.toList := by
  have hwritten : Compatible p.text.toList q.text.toList ↔ ∀ (j : Nat) (b c : Bool),
      p.text.toList[j]? = some (Mark.bit b).toChar →
        q.text.toList[j]? = some (Mark.bit c).toChar → b = c := by
    simp only [Compatible, Bool.forall_bool, not_and]
    simp [Mark.toChar]
  rw [hwritten, p.overlaps_iff_agree]
  constructor
  · intro h j b c hb hc
    exact h _ b c (getElem?_text.1 hb).2 (getElem?_text.1 hc).2
  · intro h i b c hb hc
    have hlt := p.lt_of_mark hb
    have hback : 31 - (31 - i) = i := by omega
    exact h (31 - i) b c (getElem?_text.2 ⟨by omega, by rwa [hback]⟩)
      (getElem?_text.2 ⟨by omega, by rwa [hback]⟩)

theorem coherent (p : Pattern) : p.Coherent where
  apart := p.masks_apart
  covering := p.mask_or_covered
  expected_fixed := p.expected_and_not_mask
  parse_text := parse_text
  text_eq _ := parse_eq_ok_iff_text.1
  matches_iff _ := matches_iff_hasWritten

/-- Every pattern is coherent. Two of them are equal if they have the same fixed bits and fields,
and they overlap if some word matches both, which is to say if no bit is written as zero in one and
as one in the other. -/
theorem views_agree (p q : Pattern) :
    p.Coherent ∧ (p = q ↔ p.mask = q.mask ∧ p.expected = q.expected ∧ p.fields = q.fields) ∧
      (p.Overlaps q ↔ ∃ w, p.Matches w ∧ q.Matches w) ∧
      (p.Overlaps q ↔ Compatible p.text.toList q.text.toList) :=
  ⟨p.coherent, eq_iff_views, p.overlaps_iff_exists_matches, overlaps_iff_compatible⟩

end CookingIsa.Pattern
