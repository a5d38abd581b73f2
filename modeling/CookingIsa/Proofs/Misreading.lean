import Mathlib
import CookingIsa.Proofs.Arrangement

/-!
# Which texts are misread, and why

A text is read from the left, and the first position that is wrong is the error: a character that
may not be written, or a letter that comes back after it was left (`readMarks_cases`). Before that
the positions are counted, and after it the first letter that was left out is looked for. A text
that has none of these defects is read (`parse_exactly`).
-/

namespace CookingIsa.Pattern

/-- The characters of a text that stand for bits, the highest bit first. -/
def positions (text : String) : List Char := text.toList.filter fun c => !Text.isBlank c

/-- What is wrong at a position: a character that may not be written, or a letter that was written
before but not directly to the left. -/
inductive Wrong (chars : List Char) (i : Nat) : PatternError → Prop
  | char {c : Char} (hc : chars[i]? = some c) (hforeign : c ∉ ['0', '1', 'f', 's', 't']) :
      Wrong chars i (.char c)
  | scattered {k : Fin 3} (hk : chars[i]? = some (letter k))
      (hseen : ∃ j < i, chars[j]? = some (letter k))
      (hapart : ∀ j, j + 1 = i → chars[j]? ≠ some (letter k)) :
      Wrong chars i (.scattered (letter k))

/-- Why the characters of a text are no pattern: their number, or else the first position that is
wrong, or else the first letter that is left out before one that is written. -/
inductive Misread (chars : List Char) : PatternError → Prop
  | length (hlen : chars.length ≠ 32) : Misread chars (.length chars.length)
  | wrong {i : Nat} {e : PatternError} (hlen : chars.length = 32) (hwrong : Wrong chars i e)
      (hfirst : ∀ j < i, ∀ e', ¬ Wrong chars j e') : Misread chars e
  | gap {k : Fin 3} (hlen : chars.length = 32) (hright : ∀ i e, ¬ Wrong chars i e)
      (hunused : letter k ∉ chars) (hfirst : ∀ j < k, letter j ∈ chars)
      (hlater : ∃ l, k < l ∧ letter l ∈ chars) : Misread chars (.gap k)

/-! ## Reading from the left -/

section Reading

variable {marks : List Mark} {before : List Char} {c : Char} {e : PatternError}

theorem ofChar?_eq_none_iff : Mark.ofChar? c = none ↔ c ∉ ['0', '1', 'f', 's', 't'] := by
  unfold Mark.ofChar?
  split <;> simp_all

/-- The marks that were read tell whether a letter stands apart from where it stood before. -/
theorem splits_iff (hmarks : marks.map Mark.toChar = before.reverse) {k : Fin 3} :
    (Mark.operand k).Splits marks ↔ (∃ j < before.length, before[j]? = some (letter k)) ∧
      ∀ j, j + 1 = before.length → before[j]? ≠ some (letter k) := by
  have hmem : Mark.operand k ∈ marks ↔ ∃ j < before.length, before[j]? = some (letter k) := by
    rw [← letter_mem_iff, hmarks, List.mem_reverse, List.mem_iff_getElem?]
    exact exists_congr fun j => ⟨fun h => ⟨(List.getElem?_eq_some_iff.1 h).1, h⟩, And.right⟩
  have hhead : marks.head? = some (.operand k) ↔ before[before.length - 1]? = some (letter k) := by
    rw [← List.getLast?_eq_getElem?, ← List.head?_reverse, ← hmarks, List.head?_eq_getElem?,
      List.head?_eq_getElem?, ← toChar_operand, getElem?_map_toChar]
  rw [Mark.Splits, hmem, Ne, hhead]
  constructor
  · rintro ⟨-, hseen, hapart⟩
    refine ⟨hseen, fun j hj => ?_⟩
    rwa [← hj] at hapart
  · rintro ⟨⟨j, hj, hseen⟩, hapart⟩
    exact ⟨rfl, ⟨j, hj, hseen⟩, hapart _ (by omega)⟩

theorem wrong_iff (hmarks : marks.map Mark.toChar = before.reverse) (cs : List Char) :
    Wrong (before ++ c :: cs) before.length e ↔
      Mark.ofChar? c = none ∧ e = .char c ∨
        ∃ m, Mark.ofChar? c = some m ∧ m.Splits marks ∧ e = .scattered c := by
  have hhere : (before ++ c :: cs)[before.length]? = some c := by simp
  have hleft : ∀ {j}, j < before.length → (before ++ c :: cs)[j]? = before[j]? :=
    fun hj => List.getElem?_append_left hj
  constructor
  · rintro (⟨hc, hforeign⟩ | ⟨hk, ⟨j, hj, hseen⟩, hapart⟩)
    · obtain rfl := Option.some.inj (hhere.symm.trans hc)
      exact .inl ⟨ofChar?_eq_none_iff.2 hforeign, rfl⟩
    · obtain rfl := Option.some.inj (hhere.symm.trans hk)
      refine .inr ⟨_, Mark.ofChar?_eq_some_iff.2 (toChar_operand _), (splits_iff hmarks).2 ?_, rfl⟩
      refine ⟨⟨j, hj, (hleft hj).symm.trans hseen⟩, fun j hj h => hapart j hj ?_⟩
      rwa [hleft (by omega)]
  · rintro (⟨hforeign, rfl⟩ | ⟨(b | k), hm, hsplits, rfl⟩)
    · exact .char hhere (ofChar?_eq_none_iff.1 hforeign)
    · cases hsplits.1
    · obtain rfl : letter k = c := (toChar_operand k).symm.trans (Mark.ofChar?_eq_some_iff.1 hm)
      obtain ⟨⟨j, hj, hseen⟩, hapart⟩ := (splits_iff hmarks).1 hsplits
      refine .scattered hhere ⟨j, hj, (hleft hj).trans hseen⟩ fun j hj h => hapart j hj ?_
      rwa [← hleft (by omega)]

/-- Characters are read up to the first position that is wrong, or all of them if none is. -/
theorem readMarks_cases : ∀ {cs : List Char} {marks : List Mark} {before : List Char},
    marks.map Mark.toChar = before.reverse →
      (∀ j < before.length, ∀ e, ¬ Wrong (before ++ cs) j e) →
      (∃ i e, readMarks cs marks = .error e ∧ Wrong (before ++ cs) i e ∧
          ∀ j < i, ∀ e', ¬ Wrong (before ++ cs) j e') ∨
        ∃ result, readMarks cs marks = .ok result ∧
          result.map Mark.toChar = (before ++ cs).reverse ∧ ∀ i e, ¬ Wrong (before ++ cs) i e
  | [], marks, before, hmarks, hright => by
    refine .inr ⟨marks, rfl, by simpa using hmarks, fun i e hwrong => ?_⟩
    have hlt : i < before.length := by
      have hi : ∃ c, before[i]? = some c := by
        rw [List.append_nil] at hwrong
        cases hwrong with
        | char hc => exact ⟨_, hc⟩
        | scattered hk => exact ⟨_, hk⟩
      obtain ⟨c, hc⟩ := hi
      exact (List.getElem?_eq_some_iff.1 hc).1
    exact hright i hlt e hwrong
  | c :: cs, marks, before, hmarks, hright => by
    have hhere := fun e => wrong_iff (e := e) (c := c) hmarks cs
    unfold readMarks
    split
    · rename_i hforeign
      exact .inl ⟨_, _, rfl, (hhere _).2 (.inl ⟨hforeign, rfl⟩), hright⟩
    · rename_i m hm
      split_ifs with hsplits
      · exact .inl ⟨_, _, rfl, (hhere _).2 (.inr ⟨m, hm, hsplits, rfl⟩), hright⟩
      · have hchar := Mark.ofChar?_eq_some_iff.1 hm
        have happend : before ++ c :: cs = (before ++ [c]) ++ cs := by simp
        rw [happend] at hright hhere ⊢
        refine readMarks_cases (by simp [hmarks, hchar]) fun j hj e hwrong => ?_
        rw [List.length_append, List.length_singleton, Nat.lt_succ_iff_lt_or_eq] at hj
        rcases hj with hj | rfl
        · exact hright j hj e hwrong
        · obtain ⟨hforeign, -⟩ | ⟨m', hm', hsplits', -⟩ := (hhere e).1 hwrong
          · rw [hm] at hforeign
            cases hforeign
          · obtain rfl := Option.some.inj (hm.symm.trans hm')
            exact hsplits hsplits'

end Reading

/-! ## The outcome for a text -/

/-- If operands are not without gaps, those before the first gap are all that are counted. -/
theorem leadingOperands_of_not_gapless {marks : List Mark} (h : ¬ Gapless marks) :
    ∃ k : Fin 3, leadingOperands marks = k ∧ Mark.operand k ∉ marks ∧
      (∀ j < k, Mark.operand j ∈ marks) ∧ ∃ l, k < l ∧ Mark.operand l ∈ marks := by
  have hfin : List.finRange 3 = [0, 1, 2] := rfl
  simp only [Gapless, not_forall] at h
  obtain ⟨j, l, hjl, hl, hj⟩ := h
  by_cases h0 : Mark.operand 0 ∈ marks
  · have hne : j ≠ 0 := fun h => hj (h ▸ h0)
    obtain rfl : j = 1 := by omega
    refine ⟨1, by simp [leadingOperands, hfin, h0, hj], hj, fun i hi => ?_, l, hjl, hl⟩
    obtain rfl : i = 0 := by omega
    exact h0
  · exact ⟨0, by simp [leadingOperands, hfin, h0], h0, fun i hi => by omega, l, by omega, hl⟩

variable {text : String} {chars : List Char} {e e' : PatternError}

theorem letter_mem_spelling (k : Fin 3) : letter k ∈ ['0', '1', 'f', 's', 't'] := by
  fin_cases k <;> decide

theorem Wrong.unique {i : Nat} (h : Wrong chars i e) (h' : Wrong chars i e') : e = e' := by
  cases h with
  | char hc hforeign =>
    cases h' with
    | char hc' => rw [Option.some.inj (hc.symm.trans hc')]
    | scattered hk =>
      rw [Option.some.inj (hc.symm.trans hk)] at hforeign
      exact absurd (letter_mem_spelling _) hforeign
  | scattered hk =>
    cases h' with
    | char hc hforeign =>
      rw [Option.some.inj (hc.symm.trans hk)] at hforeign
      exact absurd (letter_mem_spelling _) hforeign
    | scattered hk' => rw [Option.some.inj (hk.symm.trans hk')]

/-- The defects exclude each other, because each presumes that there is none of the ones before it,
and each is the first of its kind. -/
theorem Misread.unique (h : Misread chars e) (h' : Misread chars e') : e = e' := by
  cases h with
  | length hlen =>
    cases h' with
    | length => rfl
    | wrong hlen' | gap hlen' => exact absurd hlen' hlen
  | @wrong i _ hlen hwrong hfirst =>
    cases h' with
    | length hlen' => exact absurd hlen hlen'
    | @wrong i' _ _ hwrong' hfirst' =>
      rcases Nat.lt_trichotomy i i' with hlt | rfl | hlt
      · exact absurd hwrong (hfirst' i hlt e)
      · exact hwrong.unique hwrong'
      · exact absurd hwrong' (hfirst i' hlt e')
    | gap _ hright => exact absurd hwrong (hright i e)
  | @gap k hlen hright hunused hfirst =>
    cases h' with
    | length hlen' => exact absurd hlen hlen'
    | wrong _ hwrong' => exact absurd hwrong' (hright _ e')
    | @gap k' _ _ hunused' hfirst' =>
      rcases lt_trichotomy k k' with hlt | rfl | hlt
      · exact absurd (hfirst' k hlt) hunused
      · rfl
      · exact absurd (hfirst k' hlt) hunused'

/-- A text is either misread, and then for the first of its defects, or it has none and is read. -/
theorem parse_cases (text : String) :
    (∃ e, parse text = .error e ∧ Misread (positions text) e) ∨
      (∃ p, parse text = .ok p) ∧ ∀ e, ¬ Misread (positions text) e := by
  have hread := @readMarks_cases (positions text) [] [] rfl (by simp)
  simp only [List.nil_append] at hread
  generalize hresult : parse text = result
  simp only [parse] at hresult
  split at hresult
  · rename_i hlen
    split at hresult
    · rename_i e herror
      obtain ⟨i, e', herror', hwrong, hfirst⟩ | ⟨result, hok, -⟩ := hread
      · obtain rfl := Except.error.inj (herror.symm.trans herror')
        exact .inl ⟨e, hresult.symm, .wrong hlen hwrong hfirst⟩
      · cases herror.symm.trans hok
    · rename_i marks hok
      obtain ⟨i, e, herror, -⟩ | ⟨result, hok', hmarks, hright⟩ := hread
      · cases hok.symm.trans herror
      obtain rfl := Except.ok.inj (hok.symm.trans hok')
      have hletter : ∀ k, letter k ∈ positions text ↔ Mark.operand k ∈ marks := by
        intro k
        rw [← letter_mem_iff, hmarks, List.mem_reverse]
      split at hresult
      · rename_i hgap
        refine .inr ⟨⟨_, hresult.symm⟩, fun e h => ?_⟩
        cases h with
        | length hne => exact hne hlen
        | wrong _ hwrong => exact hright _ e hwrong
        | gap _ _ hunused _ hlater =>
          obtain ⟨l, hkl, hl⟩ := hlater
          exact hunused ((hletter _).2 (hgap _ l hkl ((hletter l).1 hl)))
      · rename_i hgap
        obtain ⟨k, hk, hunused, hfirst, l, hkl, hl⟩ := leadingOperands_of_not_gapless hgap
        refine .inl ⟨_, hresult.symm, ?_⟩
        rw [hk]
        exact .gap hlen hright (mt (hletter k).1 hunused) (fun j hj => (hletter j).2 (hfirst j hj))
          ⟨l, hkl, (hletter l).2 hl⟩
  · rename_i hlen
    exact .inl ⟨_, hresult.symm, .length hlen⟩

theorem parse_eq_error_iff : parse text = .error e ↔ Misread (positions text) e := by
  obtain ⟨e', he', hmisread⟩ | ⟨⟨p, hp⟩, hright⟩ := parse_cases text
  · rw [he', Except.error.injEq]
    exact ⟨fun h => h ▸ hmisread, fun h => hmisread.unique h⟩
  · rw [hp]
    exact ⟨nofun, fun h => absurd h (hright e)⟩

theorem exists_parse_iff_not_misread :
    (∃ p, parse text = .ok p) ↔ ∀ e, ¬ Misread (positions text) e := by
  obtain ⟨e, he, hmisread⟩ | ⟨hp, hright⟩ := parse_cases text
  · rw [he]
    exact ⟨nofun, fun h => absurd hmisread (h e)⟩
  · exact ⟨fun _ => hright, fun _ => hp⟩

/-- Texts are read alike if they differ in blanks alone. -/
theorem parse_congr {other : String} (h : positions other = positions text) :
    parse other = parse text := by
  rcases htext : parse text with e | p
  · rw [parse_eq_error_iff] at htext ⊢
    rwa [h]
  · rw [parse_eq_ok_iff] at htext ⊢
    exact htext.trans (congrArg List.reverse h.symm)

theorem operands_eq_written (p : Pattern) : p.operands = written (p.marks.map Mark.toChar) := by
  simp only [operands, written, letter_mem_iff]

/-- The field lies at the bits where the letter of its operand is written. -/
structure LiesAt (chars : List Char) (k : Fin 3) (f : Field) : Prop where
  operand_eq : f.operand = k
  width_pos : 0 < f.width
  isRun : IsRun chars (letter k) f.lsb f.width

theorem fields_lie (p : Pattern) :
    List.Forall₂ (LiesAt (p.marks.map Mark.toChar)) (written (p.marks.map Mark.toChar))
      p.fields := by
  rw [fields, List.forall₂_map_right_iff, ← operands_eq_written, List.forall₂_same]
  intro k hk
  have hmem : Mark.operand k ∈ p.marks := by simpa [operands] using hk
  exact ⟨rfl, List.count_pos_iff.2 hmem, p.isRun_field k⟩

/-- Only the characters of a text that are no blanks decide how it is read. If they have a defect,
the error is the first that they have. Otherwise they make a pattern, with one field for each letter
that is written, in the order of the operands and where the letter stands. -/
theorem parse_exactly (text : String) :
    (∀ other, positions other = positions text → parse other = parse text) ∧
      (∀ e, parse text = .error e ↔ Misread (positions text) e) ∧
      ((∃ p, parse text = .ok p) ↔ ∀ e, ¬ Misread (positions text) e) ∧
      ∀ p, parse text = .ok p → List.Forall₂ (LiesAt (positions text).reverse)
        (written (positions text).reverse) p.fields := by
  refine ⟨fun _ => parse_congr, fun _ => parse_eq_error_iff, exists_parse_iff_not_misread,
    fun p hp => ?_⟩
  have hchars : p.marks.map Mark.toChar = (positions text).reverse := parse_eq_ok_iff.1 hp
  rw [← hchars]
  exact p.fields_lie

/-- A letter that comes back is found before the foreign character to its right and the letter that
is left out, which is found once these are mended; and blanks do not matter. -/
theorem parse_exactly_mended :
    ∃ torn gapped mended spaced : String, torn = "0tst0000000000000000000000000z11" ∧
      gapped = "0ttt0000000000000000000000000111" ∧ mended = "0fff0000000000000000000000000111" ∧
      spaced = "0fff\u3000 0000 0000 0000 0000 0000 0000 0111\n" ∧
      Misread (positions torn) (.scattered 't') ∧ Misread (positions gapped) (.gap 0) ∧
      positions spaced = positions mended ∧ parse spaced = parse mended ∧
      ∃ p, parse mended = .ok p ∧ p.fields = [⟨0, 28, 3⟩] ∧
        List.Forall₂ (LiesAt (positions mended).reverse) (written (positions mended).reverse)
          p.fields := by
  have htorn : parse "0tst0000000000000000000000000z11" = .error (.scattered 't') := rfl
  have hgapped : parse "0ttt0000000000000000000000000111" = .error (.gap 0) := rfl
  obtain ⟨p, hp, hfields⟩ : ∃ p, parse "0fff0000000000000000000000000111" = .ok p ∧
      p.fields = [⟨0, 28, 3⟩] := ⟨_, rfl, rfl⟩
  have hspaced : positions "0fff\u3000 0000 0000 0000 0000 0000 0000 0111\n" =
      positions "0fff0000000000000000000000000111" := by decide +kernel
  obtain ⟨hcongr, -, -, hlie⟩ := parse_exactly "0fff0000000000000000000000000111"
  exact ⟨_, _, _, _, rfl, rfl, rfl, rfl, ((parse_exactly _).2.1 _).1 htorn,
    ((parse_exactly _).2.1 _).1 hgapped, hspaced, hcongr _ hspaced, p, hp, hfields, hlie p hp⟩

end CookingIsa.Pattern
