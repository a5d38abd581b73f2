import Mathlib
import CookingIsa.Proofs.RoundTrip

/-!
# Which operands are encoded

Encoding stops at the first value that does not fit its field (`insertAll_eq_error_iff`). An
immediate that is given with its sign is put into its field as the unsigned number with the same
bits, and only such values are changed, so what fits are the numbers of registers and the immediates
of 16 bits with or without sign (`fits_fieldValue_iff`), and a value that is refused is reported as
it was given. Operands are encoded exactly if there are as many as fields and each fits
(`encode_exactly`).
-/

namespace CookingIsa

namespace Field

/-- The value is a number that the bits of the field can hold. -/
def Fits (f : Field) (value : Int) : Prop := 0 ≤ value ∧ value < (2 ^ f.width : Nat)

theorem exists_insert_eq_ok {f : Field} {value : Int} (h : f.Fits value) (w : Word) :
    ∃ w', f.insert value w = .ok w' := by
  unfold insert
  rw [Nat.one_shiftLeft]
  exact ⟨_, if_pos h⟩

theorem insert_eq_error {f : Field} {value : Int} (h : ¬ f.Fits value) (w : Word) :
    f.insert value w = .error (.outOfRange f.operand value f.width) := by
  unfold insert
  rw [Nat.one_shiftLeft]
  exact if_neg h

end Field

namespace Pattern

/-- The first value that does not fit its field. -/
structure FirstMisfit (fields : List Field) (values : List Int) (j : Nat) (f : Field)
    (value : Int) : Prop where
  field_eq : fields[j]? = some f
  value_eq : values[j]? = some value
  not_fits : ¬ f.Fits value
  fits_before : ∀ k < j, ∀ g v, fields[k]? = some g → values[k]? = some v → g.Fits v

section FirstMisfit

variable {f g : Field} {fields : List Field} {v value : Int} {values : List Int} {j : Nat}

theorem FirstMisfit.head (h : ¬ f.Fits v) : FirstMisfit (f :: fields) (v :: values) 0 f v :=
  ⟨rfl, rfl, h, fun _ hk => absurd hk (Nat.not_lt_zero _)⟩

theorem FirstMisfit.tail (hv : f.Fits v) (h : FirstMisfit fields values j g value) :
    FirstMisfit (f :: fields) (v :: values) (j + 1) g value where
  field_eq := h.field_eq
  value_eq := h.value_eq
  not_fits := h.not_fits
  fits_before k hk g' v' hg' hv' := by
    rcases k with _ | k
    · cases hg'
      cases hv'
      exact hv
    · exact h.fits_before k (Nat.lt_of_succ_lt_succ hk) g' v' hg' hv'

/-- The first misfit is at the head, or it is the first one of the tail. -/
theorem FirstMisfit.cases_cons (h : FirstMisfit (f :: fields) (v :: values) j g value) :
    (j = 0 ∧ g = f ∧ value = v ∧ ¬ f.Fits v) ∨
      ∃ k, j = k + 1 ∧ f.Fits v ∧ FirstMisfit fields values k g value := by
  obtain ⟨hg, hvalue, hnot, hbefore⟩ := h
  rcases j with _ | j
  · cases hg
    cases hvalue
    exact .inl ⟨rfl, rfl, rfl, hnot⟩
  · exact .inr ⟨j, rfl, hbefore 0 (Nat.succ_pos j) f v rfl rfl, hg, hvalue, hnot,
      fun k hk => hbefore (k + 1) (Nat.succ_lt_succ hk)⟩

end FirstMisfit

theorem insertAll_eq_error_iff {e : EncodeError} :
    ∀ {fields : List Field} {values : List Int} {w : Word},
      insertAll fields values w = .error e ↔ ∃ j f value,
        FirstMisfit fields values j f value ∧ e = .outOfRange f.operand value f.width
  | [], _, w => by
    refine ⟨fun h => by simp [insertAll] at h, ?_⟩
    rintro ⟨j, f, value, h, -⟩
    cases h.field_eq
  | f :: fields, [], w => by
    refine ⟨fun h => by simp [insertAll] at h, ?_⟩
    rintro ⟨j, g, value, h, -⟩
    cases h.value_eq
  | f :: fields, v :: values, w => by
    by_cases hv : f.Fits v
    · obtain ⟨w', hw'⟩ := f.exists_insert_eq_ok hv w
      have hstep : insertAll (f :: fields) (v :: values) w = insertAll fields values w' := by
        simp only [insertAll, hw', bind, Except.bind]
      rw [hstep, insertAll_eq_error_iff]
      constructor
      · rintro ⟨j, g, value, h, he⟩
        exact ⟨j + 1, g, value, h.tail hv, he⟩
      · rintro ⟨j, g, value, h, he⟩
        obtain ⟨-, -, -, hnot⟩ | ⟨k, -, -, hk⟩ := h.cases_cons
        · exact absurd hv hnot
        · exact ⟨k, g, value, hk, he⟩
    · have hstep : insertAll (f :: fields) (v :: values) w =
          .error (.outOfRange f.operand v f.width) := by
        simp only [insertAll, f.insert_eq_error hv, bind, Except.bind]
      rw [hstep, Except.error.injEq]
      constructor
      · rintro rfl
        exact ⟨0, f, v, .head hv, rfl⟩
      · rintro ⟨j, g, value, h, rfl⟩
        obtain ⟨-, rfl, rfl, -⟩ | ⟨k, -, hfits, -⟩ := h.cases_cons
        · rfl
        · exact absurd hfits hv

end Pattern

namespace Layout

/-- A value that is accepted for the operand at index `i`: a number of 16 bits, with or without
sign, for an immediate, and the number of a register otherwise. -/
def Accepts (l : Layout) (i : Nat) (value : Int) : Prop :=
  if l.IsImmediate i then -0x8000 ≤ value ∧ value < 0x10000 else 0 ≤ value ∧ value < Register.count

/-- Two values are the same operand at index `i`. They are equal, or they are an immediate given
once with its sign and once without. -/
def Same (l : Layout) (i : Nat) (value other : Int) : Prop :=
  value = other ∨ l.IsImmediate i ∧
    (value < 0 ∧ value + 0x10000 = other ∨ other < 0 ∧ other + 0x10000 = value)

variable {l : Layout} {p : Pattern} {j : Nat} {f : Field} {value other : Int}

theorem fits_fieldValue_iff (hfit : l.violation? p = none) (hf : p.fields[j]? = some f) :
    f.Fits (l.fieldValue j value) ↔ l.Accepts j value := by
  have hshape := field_shape hfit hf
  unfold Field.Fits Accepts
  by_cases himm : l.IsImmediate j
  · rw [if_pos himm] at hshape ⊢
    obtain ⟨rfl, rfl⟩ := himm
    rw [hshape.1]
    simp only [fieldValue, true_and]
    split_ifs <;> omega
  · rw [if_neg himm] at hshape ⊢
    rw [hshape.1, fieldValue_of_not_isImmediate himm]
    norm_num

theorem fieldValue_of_not_accepts (h : ¬ l.Accepts j value) : l.fieldValue j value = value := by
  by_cases himm : l.IsImmediate j
  · rw [Accepts, if_pos himm] at h
    exact if_neg fun hc => h ⟨hc.2.2.1, by omega⟩
  · exact fieldValue_of_not_isImmediate himm value

theorem fieldValue_eq_iff (h : l.Accepts j value) (h' : l.Accepts j other) :
    l.fieldValue j value = l.fieldValue j other ↔ l.Same j value other := by
  unfold Accepts at h h'
  by_cases himm : l.IsImmediate j
  · rw [if_pos himm] at h h'
    obtain ⟨rfl, rfl⟩ := himm
    simp only [fieldValue, Same, IsImmediate, and_self, true_and]
    split_ifs <;> omega
  · rw [fieldValue_of_not_isImmediate himm, fieldValue_of_not_isImmediate himm]
    simp [Same, himm]

end Layout

namespace Instruction

/-- Why operands are not encoded. They are counted first, and then the first that is not accepted is
reported, as it was given. -/
inductive Rejection (i : Instruction) (operands : List Int) : EncodeError → Prop
  | count (hlen : operands.length ≠ i.pattern.fields.length) :
      Rejection i operands (.operandCount i.pattern.fields.length operands.length)
  | range {j : Nat} {f : Field} {value : Int} (hlen : operands.length = i.pattern.fields.length)
      (hfield : i.pattern.fields[j]? = some f) (hvalue : operands[j]? = some value)
      (hout : ¬ i.layout.Accepts j value)
      (hfirst : ∀ k < j, ∀ v, operands[k]? = some v → i.layout.Accepts k v) :
      Rejection i operands (.outOfRange j value f.width)

variable (i : Instruction) {operands others : List Int} {w w' : Word}

/-- Each operand meets a field. -/
theorem exists_field (hlen : operands.length = i.pattern.fields.length) {j : Nat} {value : Int}
    (h : operands[j]? = some value) : ∃ f, i.pattern.fields[j]? = some f :=
  ⟨_, List.getElem?_eq_getElem (hlen ▸ (List.getElem?_eq_some_iff.1 h).1)⟩

theorem encode_eq_error_iff {e : EncodeError} :
    i.encode operands = .error e ↔ i.Rejection operands e := by
  have hfits : ∀ {j f value}, i.pattern.fields[j]? = some f →
      (f.Fits (i.layout.fieldValue j value) ↔ i.layout.Accepts j value) :=
    fun hf => Layout.fits_fieldValue_iff i.fits hf
  have hvalues : ∀ {j v}, (operands.mapIdx i.layout.fieldValue)[j]? = some v ↔
      ∃ value, operands[j]? = some value ∧ i.layout.fieldValue j value = v := by
    intro j v
    rw [List.getElem?_mapIdx, Option.map_eq_some_iff]
  unfold encode Layout.encode Pattern.encode
  rw [List.length_mapIdx]
  split_ifs with hlen
  · rw [Pattern.insertAll_eq_error_iff]
    constructor
    · rintro ⟨j, f, v, h, rfl⟩
      obtain ⟨value, hvalue, rfl⟩ := hvalues.1 h.value_eq
      have hout : ¬ i.layout.Accepts j value := fun hc => h.not_fits ((hfits h.field_eq).2 hc)
      rw [i.pattern.operand_of_getElem? h.field_eq, Layout.fieldValue_of_not_accepts hout]
      refine .range hlen h.field_eq hvalue hout fun k hk v hv => ?_
      obtain ⟨g, hg⟩ := i.exists_field hlen hv
      exact (hfits hg).1 (h.fits_before k hk g _ hg (hvalues.2 ⟨v, hv, rfl⟩))
    · intro h
      cases h with
      | count hne => exact absurd hlen hne
      | @range j f value _ hfield hvalue hout hfirst =>
        have hsame := Layout.fieldValue_of_not_accepts hout
        refine ⟨j, f, value, ⟨hfield, hvalues.2 ⟨value, hvalue, hsame⟩, ?_, ?_⟩, ?_⟩
        · rw [← hsame, hfits hfield]
          exact hout
        · intro k hk g v hg hv
          obtain ⟨u, hu, rfl⟩ := hvalues.1 hv
          exact (hfits hg).2 (hfirst k hk u hu)
        · rw [i.pattern.operand_of_getElem? hfield]
  · rw [Except.error.injEq]
    constructor
    · rintro rfl
      exact .count hlen
    · intro h
      cases h with
      | count => rfl
      | range hlen' => exact absurd hlen' hlen

theorem exists_encode_eq_ok_iff : (∃ w, i.encode operands = .ok w) ↔
    operands.length = i.pattern.fields.length ∧
      ∀ j value, operands[j]? = some value → i.layout.Accepts j value := by
  constructor
  · rintro ⟨w, hw⟩
    have hno : ∀ e, ¬ i.Rejection operands e := by
      intro e he
      rw [i.encode_eq_error_iff.2 he] at hw
      cases hw
    have hlen : operands.length = i.pattern.fields.length := by
      by_contra hne
      exact hno _ (.count hne)
    refine ⟨hlen, fun j => ?_⟩
    -- The operands before this one are accepted, so it would be the first that is not.
    induction j using Nat.strong_induction_on with
    | _ j ih =>
      intro value hvalue
      by_contra hout
      obtain ⟨f, hf⟩ := i.exists_field hlen hvalue
      exact hno _ (.range hlen hf hvalue hout ih)
  · rintro ⟨hlen, hall⟩
    rcases h : i.encode operands with e | w
    · cases i.encode_eq_error_iff.1 h with
      | count hne => exact absurd hlen hne
      | range _ _ hvalue hout _ => exact absurd (hall _ _ hvalue) hout
    · exact ⟨w, rfl⟩

/-- A word tells its operands up to the sign of an immediate. -/
theorem eq_iff_same (h : i.encode operands = .ok w) (h' : i.encode others = .ok w') :
    w = w' ↔ ∀ j value other, operands[j]? = some value → others[j]? = some other →
      i.layout.Same j value other := by
  obtain ⟨hlen, haccepts⟩ := i.exists_encode_eq_ok_iff.1 ⟨w, h⟩
  obtain ⟨hlen', haccepts'⟩ := i.exists_encode_eq_ok_iff.1 ⟨w', h'⟩
  constructor
  · rintro rfl j value other hvalue hother
    have hheld := (Layout.encode_eq_ok_iff.1 h).2.trans (Layout.encode_eq_ok_iff.1 h').2.symm
    have hj := congrArg (·[j]?) hheld
    simp only [List.getElem?_mapIdx, hvalue, hother, Option.map_some, Option.some.injEq] at hj
    exact (Layout.fieldValue_eq_iff (haccepts j value hvalue) (haccepts' j other hother)).1 hj
  · intro hsame
    have hvalues : operands.mapIdx i.layout.fieldValue = others.mapIdx i.layout.fieldValue := by
      refine List.ext_getElem (by simp [hlen, hlen']) fun j hj hj' => ?_
      rw [List.length_mapIdx] at hj hj'
      have hvalue := List.getElem?_eq_getElem hj
      have hother := List.getElem?_eq_getElem hj'
      rw [List.getElem_mapIdx, List.getElem_mapIdx]
      exact (Layout.fieldValue_eq_iff (haccepts j _ hvalue) (haccepts' j _ hother)).2
        (hsame j _ _ hvalue hother)
    have hencode : i.encode operands = i.encode others := congrArg i.pattern.encode hvalues
    rw [h, h'] at hencode
    exact Except.ok.inj hencode

/-- Encoding fails exactly if the operands are too few or too many, or else for the first that is
not accepted; otherwise there is a word, and it is the word of no other operands but those that
differ in the sign of an immediate. -/
theorem encode_exactly (i : Instruction) (operands : List Int) :
    (∀ e, i.encode operands = .error e ↔ i.Rejection operands e) ∧
      ((∃ w, i.encode operands = .ok w) ↔ operands.length = i.pattern.fields.length ∧
        ∀ j value, operands[j]? = some value → i.layout.Accepts j value) ∧
      ∀ others w w', i.encode operands = .ok w → i.encode others = .ok w' →
        (w = w' ↔ ∀ j value other, operands[j]? = some value → others[j]? = some other →
          i.layout.Same j value other) :=
  ⟨fun _ => i.encode_eq_error_iff, i.exists_encode_eq_ok_iff, fun _ _ _ => i.eq_iff_same⟩

/-- Too few operands, a register that does not exist before an immediate that is too large, an
immediate that is too small, and the immediate with all bits set, once with its sign and once
without. -/
theorem encode_exactly_addImmediate :
    ∃ i ∈ ChefAssembly.instructions.take 1,
      (i.encode [8, 9] = .error (.operandCount 3 2) ∧
        i.encode [8, 32, 0x10000] = .error (.outOfRange 1 32 5) ∧
        i.encode [8, 9, -0x8001] = .error (.outOfRange 2 (-0x8001) 16) ∧
        i.encode [8, 9, -1] = .ok 0x2128ffff#32 ∧ i.encode [8, 9, 0xffff] = .ok 0x2128ffff#32) ∧
      i.Rejection [8, 9] (.operandCount 3 2) ∧
      i.Rejection [8, 32, 0x10000] (.outOfRange 1 32 5) ∧
      i.Rejection [8, 9, -0x8001] (.outOfRange 2 (-0x8001) 16) ∧
      (∀ j value, [8, 9, -1][j]? = some value → i.layout.Accepts j value) ∧
      ∀ j value other, [8, 9, -1][j]? = some value → [8, 9, 0xffff][j]? = some other →
        i.layout.Same j value other := by
  have hencode : ∃ i ∈ ChefAssembly.instructions.take 1,
      i.encode [8, 9] = .error (.operandCount 3 2) ∧
        i.encode [8, 32, 0x10000] = .error (.outOfRange 1 32 5) ∧
        i.encode [8, 9, -0x8001] = .error (.outOfRange 2 (-0x8001) 16) ∧
        i.encode [8, 9, -1] = .ok 0x2128ffff#32 ∧ i.encode [8, 9, 0xffff] = .ok 0x2128ffff#32 := by
    decide +kernel
  obtain ⟨i, hi, hcount, hregister, himmediate, hsigned, hunsigned⟩ := hencode
  obtain ⟨-, hok, hsame⟩ := encode_exactly i [8, 9, -1]
  exact ⟨i, hi, ⟨hcount, hregister, himmediate, hsigned, hunsigned⟩,
    ((encode_exactly i _).1 _).1 hcount, ((encode_exactly i _).1 _).1 hregister,
    ((encode_exactly i _).1 _).1 himmediate, (hok.1 ⟨_, hsigned⟩).2,
    (hsame _ _ _ hsigned hunsigned).1 rfl⟩

end Instruction

end CookingIsa
