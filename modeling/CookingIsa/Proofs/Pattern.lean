import Mathlib
import CookingIsa.Proofs.Field

/-!
# Every bit of a word is fixed or in one field

A word matches if it has the fixed bits, and two patterns overlap if some word matches both
(`overlaps_iff_exists_matches`).

The marks of an operand are one run, so its field covers exactly the positions with its mark
(`covers_field_iff`). The fields of a pattern are therefore apart from each other and from the fixed
bits, and together they leave no bit out (`clearAll_fields`). So a word comes of encoding operands
exactly if it matches and the operands are what its fields hold (`encode_eq_ok_iff`).
-/

namespace CookingIsa

/-- The marks of one operand are those from the first of them on, as many as there are. -/
theorem Unbroken.getElem?_eq_some_iff {m : Mark} (hm : m.isBit = false) :
    ∀ {marks : List Mark}, Unbroken marks → ∀ i : Nat,
      marks[i]? = some m ↔ marks.idxOf m ≤ i ∧ i < marks.idxOf m + marks.count m
  | [], _, i => by simp
  | a :: marks, ⟨ha, hmarks⟩, i => by
    have ih := getElem?_eq_some_iff hm hmarks
    by_cases ham : a = m
    · subst ham
      have hrun : ∀ j, marks[j]? = some a ↔ j < marks.count a := by
        intro j
        by_cases hmem : a ∈ marks
        · have hhead : marks.head? = some a := by
            by_contra hne
            exact ha ⟨hm, hmem, hne⟩
          have hzero : marks.idxOf a = 0 := by
            rcases marks with _ | ⟨b, marks⟩
            · rfl
            · simp only [List.head?_cons, Option.some.injEq] at hhead
              rw [hhead, List.idxOf_cons_self]
          simpa [hzero] using ih j
        · have hne : marks[j]? ≠ some a := fun h => hmem (List.mem_of_getElem? h)
          simp [hne, List.count_eq_zero_of_not_mem hmem]
      rcases i with _ | i
      · simp
      · simp [hrun i]
    · rw [List.idxOf_cons_ne _ ham, List.count_cons_of_ne ham]
      rcases i with _ | i
      · simp [ham]
      · rw [List.getElem?_cons_succ, ih i]
        omega

namespace Pattern

variable (p : Pattern)

theorem exists_mark {i : Nat} (hi : i < 32) : ∃ m, p.marks[i]? = some m :=
  ⟨_, List.getElem?_eq_getElem (by rw [p.length_marks]; exact hi)⟩

theorem lt_of_mark {i : Nat} {m : Mark} (h : p.marks[i]? = some m) : i < 32 := by
  have := (List.getElem?_eq_some_iff.1 h).1
  rwa [p.length_marks] at this

/-- Words are equal if they agree at every mark. -/
theorem word_ext {v w : Word}
    (h : ∀ (i : Nat) (m : Mark), p.marks[i]? = some m → v.getLsbD i = w.getLsbD i) : v = w := by
  refine BitVec.eq_of_getLsbD_eq fun i hi => ?_
  obtain ⟨m, hm⟩ := p.exists_mark hi
  exact h i m hm

theorem getLsbD_mask_of_mark {i : Nat} {m : Mark} (h : p.marks[i]? = some m) :
    p.mask.getLsbD i = m.isBit := by
  simp [mask, getLsbD_wordOf, List.getD_eq_getElem?_getD, h]

theorem getLsbD_expected_of_mark {i : Nat} {m : Mark} (h : p.marks[i]? = some m) :
    p.expected.getLsbD i = m.isOne := by
  simp [expected, getLsbD_wordOf, List.getD_eq_getElem?_getD, h]

/-- A word matches a pattern exactly if it has every fixed bit. -/
theorem matches_iff {w : Word} :
    p.Matches w ↔ ∀ (i : Nat) (b : Bool), p.marks[i]? = some (.bit b) → w.getLsbD i = b := by
  constructor
  · intro h i b hb
    have hbit := congrArg (·.getLsbD i) (show w &&& p.mask = p.expected from h)
    simp only [BitVec.getLsbD_and, p.getLsbD_mask_of_mark hb, p.getLsbD_expected_of_mark hb,
      Mark.isBit, Mark.isOne, Bool.and_true] at hbit
    exact hbit
  · intro h
    refine p.word_ext fun i m hm => ?_
    rw [BitVec.getLsbD_and, p.getLsbD_mask_of_mark hm, p.getLsbD_expected_of_mark hm]
    rcases m with b | k
    · simp [Mark.isBit, Mark.isOne, h i b hm]
    · simp [Mark.isBit, Mark.isOne]

theorem matches_expected : p.Matches p.expected :=
  p.matches_iff.2 fun _ _ hb => p.getLsbD_expected_of_mark hb

/-- Two patterns overlap exactly if they agree on every bit that both fix. -/
theorem overlaps_iff_agree {q : Pattern} :
    p.Overlaps q ↔ ∀ (i : Nat) (b c : Bool),
      p.marks[i]? = some (.bit b) → q.marks[i]? = some (.bit c) → b = c := by
  constructor
  · intro h i b c hb hc
    have hbit := congrArg (·.getLsbD i)
      (show (p.expected ^^^ q.expected) &&& (p.mask &&& q.mask) = 0#32 from h)
    simp only [BitVec.getLsbD_and, BitVec.getLsbD_xor, p.getLsbD_mask_of_mark hb,
      q.getLsbD_mask_of_mark hc, p.getLsbD_expected_of_mark hb, q.getLsbD_expected_of_mark hc,
      Mark.isBit, Mark.isOne, Bool.and_true, BitVec.getLsbD_zero] at hbit
    simpa using hbit
  · intro h
    refine p.word_ext fun i m hm => ?_
    obtain ⟨n, hn⟩ := q.exists_mark (p.lt_of_mark hm)
    rw [BitVec.getLsbD_and, BitVec.getLsbD_xor, BitVec.getLsbD_and, p.getLsbD_mask_of_mark hm,
      q.getLsbD_mask_of_mark hn, p.getLsbD_expected_of_mark hm, q.getLsbD_expected_of_mark hn]
    rcases m with b | j <;> rcases n with c | k <;> simp [Mark.isBit, Mark.isOne]
    exact h i b c hm hn

/-- Two patterns overlap exactly if some word matches both. The fixed bits of the two together make
such a word, the bits that neither fixes being zero. -/
theorem overlaps_iff_exists_matches {q : Pattern} :
    p.Overlaps q ↔ ∃ w, p.Matches w ∧ q.Matches w := by
  constructor
  · intro h
    rw [overlaps_iff_agree] at h
    refine ⟨p.expected ||| q.expected, p.matches_iff.2 fun i b hb => ?_,
      q.matches_iff.2 fun i c hc => ?_⟩
    · obtain ⟨n, hn⟩ := q.exists_mark (p.lt_of_mark hb)
      rw [BitVec.getLsbD_or, p.getLsbD_expected_of_mark hb, q.getLsbD_expected_of_mark hn]
      rcases n with c | k
      · simp [Mark.isOne, h i b c hb hn]
      · simp [Mark.isOne]
    · obtain ⟨m, hm⟩ := p.exists_mark (q.lt_of_mark hc)
      rw [BitVec.getLsbD_or, p.getLsbD_expected_of_mark hm, q.getLsbD_expected_of_mark hc]
      rcases m with b | k
      · simp [Mark.isOne, h i b c hm hc]
      · simp [Mark.isOne]
  · rintro ⟨w, hp, hq⟩
    rw [overlaps_iff_agree]
    intro i b c hb hc
    rw [← p.matches_iff.1 hp i b hb, q.matches_iff.1 hq i c hc]

theorem Overlaps.symm {p q : Pattern} (h : p.Overlaps q) : q.Overlaps p := by
  obtain ⟨w, hp, hq⟩ := p.overlaps_iff_exists_matches.1 h
  exact q.overlaps_iff_exists_matches.2 ⟨w, hq, hp⟩

theorem covers_field_iff (k : Fin 3) (i : Nat) :
    (p.field k).Covers i ↔ p.marks[i]? = some (.operand k) :=
  (Unbroken.getElem?_eq_some_iff (by rfl) p.unbroken i).symm

theorem field_le (k : Fin 3) : (p.field k).lsb + (p.field k).width ≤ 32 := by
  rcases Nat.eq_zero_or_pos (p.field k).width with hw | hw
  · rw [hw, Nat.add_zero]
    exact le_of_le_of_eq List.idxOf_le_length p.length_marks
  · have hlast : (p.field k).Covers ((p.field k).lsb + (p.field k).width - 1) :=
      ⟨by omega, by omega⟩
    have := p.lt_of_mark ((p.covers_field_iff k _).1 hlast)
    omega

theorem mem_fields {f : Field} :
    f ∈ p.fields ↔ ∃ k, Mark.operand k ∈ p.marks ∧ p.field k = f := by
  simp [fields, operands]

theorem fields_le {f : Field} (hf : f ∈ p.fields) : f.lsb + f.width ≤ 32 := by
  obtain ⟨k, -, rfl⟩ := p.mem_fields.1 hf
  exact p.field_le k

theorem getLsbD_mask_field (k : Fin 3) {i : Nat} {m : Mark} (h : p.marks[i]? = some m) :
    (p.field k).mask.getLsbD i = decide (m = .operand k) := by
  rw [Field.getLsbD_mask _ (p.lt_of_mark h)]
  simp only [p.covers_field_iff, h, Option.some.injEq]

theorem field_mask_disjoint {j k : Fin 3} (hjk : j ≠ k) :
    (p.field j).mask &&& (p.field k).mask = 0#32 := by
  refine p.word_ext fun i m hm => ?_
  rw [BitVec.getLsbD_and, p.getLsbD_mask_field j hm, p.getLsbD_mask_field k hm]
  by_cases h : m = .operand j
  · subst h
    simp [hjk]
  · simp [h]

theorem fields_disjoint : p.fields.Pairwise fun f g => f.mask &&& g.mask = 0#32 := by
  refine List.Pairwise.map p.field (fun j k => p.field_mask_disjoint) ?_
  exact (List.nodup_finRange 3).filter _

theorem expected_and_mask_field (k : Fin 3) : p.expected &&& (p.field k).mask = 0#32 := by
  refine p.word_ext fun i m hm => ?_
  rw [BitVec.getLsbD_and, p.getLsbD_expected_of_mark hm, p.getLsbD_mask_field k hm]
  rcases m with b | j <;> simp [Mark.isOne]

/-- The word with the bits of all given fields set to zero. -/
def clearAll (fields : List Field) (w : Word) : Word :=
  fields.foldr (fun f v => v &&& ~~~f.mask) w

theorem getLsbD_clearAll (w : Word) {i : Nat} (hi : i < 32) :
    ∀ fields : List Field, (clearAll fields w).getLsbD i =
      (w.getLsbD i && fields.all fun f => !f.mask.getLsbD i)
  | [] => by simp [clearAll]
  | f :: fields => by
    have ih := getLsbD_clearAll w hi fields
    simp only [clearAll, List.foldr_cons, List.all_cons] at ih ⊢
    rw [BitVec.getLsbD_and, BitVec.getLsbD_not, ih]
    simp only [hi, decide_true, Bool.true_and, Bool.and_assoc]
    rw [Bool.and_comm (List.all _ _)]

/-- What is outside all fields is what is fixed. -/
theorem clearAll_fields (w : Word) : clearAll p.fields w = w &&& p.mask := by
  refine p.word_ext fun i m hm => ?_
  rw [getLsbD_clearAll w (p.lt_of_mark hm), BitVec.getLsbD_and, p.getLsbD_mask_of_mark hm]
  congr 1
  rw [Bool.eq_iff_iff, List.all_eq_true]
  rcases m with b | k
  · simp only [Mark.isBit, iff_true]
    intro f hf
    obtain ⟨k, -, rfl⟩ := p.mem_fields.1 hf
    simp [p.getLsbD_mask_field k hm]
  · simp only [Mark.isBit, Bool.false_eq_true, iff_false, not_forall]
    refine ⟨p.field k, p.mem_fields.2 ⟨k, List.mem_of_getElem? hm, rfl⟩, ?_⟩
    simp [p.getLsbD_mask_field k hm]

/-- The value that a field holds. -/
def held (w : Word) (f : Field) : Int := ((f.extract w).toNat : Int)

theorem extract_clearAll {f : Field} {fields : List Field}
    (hd : ∀ g ∈ fields, f.mask &&& g.mask = 0#32) (w : Word) :
    f.extract (clearAll fields w) = f.extract w := by
  refine f.extract_congr (BitVec.eq_of_getLsbD_eq fun i hi => ?_)
  rw [BitVec.getLsbD_and, BitVec.getLsbD_and, getLsbD_clearAll w hi]
  rcases hf : f.mask.getLsbD i with _ | _
  · simp
  · have hall : (fields.all fun g => !g.mask.getLsbD i) = true := by
      rw [List.all_eq_true]
      intro g hg
      have hbit := congrArg (·.getLsbD i) (hd g hg)
      simp only [BitVec.getLsbD_and, hf, Bool.true_and, BitVec.getLsbD_zero] at hbit
      rw [hbit, Bool.not_false]
    rw [hall, Bool.and_true]

/-- Values are put into fields that are apart from each other and still empty in exactly one way:
the fields then hold them, and the rest of the word is what it was. -/
theorem insertAll_eq_ok_iff {w : Word} :
    ∀ {fields : List Field} {values : List Int} {w₀ : Word},
      (∀ f ∈ fields, f.lsb + f.width ≤ 32) →
      (fields.Pairwise fun f g => f.mask &&& g.mask = 0#32) →
      (∀ f ∈ fields, w₀ &&& f.mask = 0#32) → values.length = fields.length →
      (insertAll fields values w₀ = .ok w ↔
        values = fields.map (held w) ∧ clearAll fields w = w₀)
  | [], values, w₀, _, _, _, hlen => by
    obtain rfl := List.eq_nil_of_length_eq_zero hlen
    simp [insertAll, clearAll, eq_comm]
  | f :: fields, [], w₀, _, _, _, hlen => by simp at hlen
  | f :: fields, v :: values, w₀, hin, hd, hempty, hlen => by
    obtain ⟨hf, hd⟩ := List.pairwise_cons.1 hd
    have hstep : insertAll (f :: fields) (v :: values) w₀ = .ok w ↔
        ∃ w₁, f.insert v w₀ = .ok w₁ ∧ insertAll fields values w₁ = .ok w := by
      simp only [insertAll]
      rcases f.insert v w₀ with e | w₁ <;> simp [bind, Except.bind]
    -- What is left of the final word without the later fields is the word after the first step.
    have hmid : ∀ {w₁ : Word}, f.insert v w₀ = .ok w₁ →
        (insertAll fields values w₁ = .ok w ↔
          values = fields.map (held w) ∧ clearAll fields w = w₁) := by
      intro w₁ h₁
      refine insertAll_eq_ok_iff (fun g hg => hin g (List.mem_cons_of_mem f hg)) hd ?_
        (by simpa using hlen)
      intro g hg
      obtain ⟨-, hrest⟩ := (f.insert_eq_ok_iff (hin f List.mem_cons_self)
        (hempty f List.mem_cons_self)).1 h₁
      refine BitVec.eq_of_getLsbD_eq fun i hi => ?_
      have h0 := congrArg (·.getLsbD i) (hempty g (List.mem_cons_of_mem f hg))
      have hfg := congrArg (·.getLsbD i) (hf g hg)
      rw [← hrest] at h0
      simp only [BitVec.getLsbD_and, BitVec.getLsbD_not, hi, BitVec.getLsbD_zero] at h0 hfg ⊢
      cases hm : f.mask.getLsbD i <;> simp_all
    have hsame : held (clearAll fields w) f = held w f := by
      simp only [held, extract_clearAll hf w]
    have hclear : clearAll (f :: fields) w = clearAll fields w &&& ~~~f.mask := rfl
    rw [hstep, List.map_cons, List.cons.injEq, hclear]
    constructor
    · rintro ⟨w₁, h₁, h₂⟩
      obtain ⟨hvalues, rfl⟩ := (hmid h₁).1 h₂
      obtain ⟨hv, hrest⟩ := (f.insert_eq_ok_iff (hin f List.mem_cons_self)
        (hempty f List.mem_cons_self)).1 h₁
      exact ⟨⟨hv.trans hsame, hvalues⟩, hrest⟩
    · rintro ⟨⟨hv, hvalues⟩, hrest⟩
      have h₁ : f.insert v w₀ = .ok (clearAll fields w) :=
        (f.insert_eq_ok_iff (hin f List.mem_cons_self) (hempty f List.mem_cons_self)).2
          ⟨hv.trans hsame.symm, hrest⟩
      exact ⟨_, h₁, (hmid h₁).2 ⟨hvalues, rfl⟩⟩

/-- Encoding is possible in exactly one way: the word matches, and the operands are what its fields
hold. -/
theorem encode_eq_ok_iff {operands : List Int} {w : Word} :
    p.encode operands = .ok w ↔ p.Matches w ∧ operands = p.fields.map (held w) := by
  unfold encode
  by_cases hlen : operands.length = p.fields.length
  · have hempty : ∀ f ∈ p.fields, p.expected &&& f.mask = 0#32 := by
      intro f hf
      obtain ⟨k, -, rfl⟩ := p.mem_fields.1 hf
      exact p.expected_and_mask_field k
    rw [if_pos hlen, insertAll_eq_ok_iff (fun f => p.fields_le) p.fields_disjoint hempty hlen,
      p.clearAll_fields, Matches, and_comm]
  · rw [if_neg hlen]
    refine ⟨fun h => by simp at h, ?_⟩
    rintro ⟨-, rfl⟩
    exact absurd (List.length_map _) hlen

end Pattern

end CookingIsa
