import Mathlib
import CookingIsa.Proofs.Literal
import CookingIsa.Proofs.SignedLiteral

/-!
# Which texts refer to a register

A register is referred to by its number or by a name, of which one has two (`Reference`). No name is
a number, so it makes no difference that a text is tried as a number first, and neither begins
with a dollar sign, so at most one is taken off (`ofText?_eq_some_iff`). Where an operand may be a
register or an integer, a text that is both is the same number as either (`eq_of_integer`).
-/

namespace CookingIsa.Register

open Text (Sign Spells)

/-- The characters behind the dollar sign, if any, of a reference to the register `n`. -/
inductive Reference : List Char → Nat → Prop
  | number {s : Sign} {digits : List Char} {n : Nat} (hs : s ≠ .minus)
      (hdigits : Spells 10 digits n) (hn : n < count) : Reference (s.chars ++ digits) n
  | name {label : String} {n : Nat} (h : names[n]? = some label) : Reference label.toList n
  | framePointer : Reference "s8".toList 30

/-- The text is a reference to the register `n`, with or without a dollar sign in front. -/
def Refers (text : String) (n : Nat) : Prop :=
  Reference text.toList n ∨ ∃ cs, text.toList = '$' :: cs ∧ Reference cs n

variable {text label : String} {cs : List Char} {n : Nat} {v : Int}

/-- No name could be taken for a number or an integer, or has a dollar sign of its own. -/
theorem names_apart : ∀ label ∈ "s8" :: names,
    (Text.readUnsigned 10 UInt64.size label.toList).toOption = none ∧
      CommandLine.integer label = .error .refused ∧ label.toList.head? ≠ some '$' := by
  decide +kernel

theorem not_number_of_mem (h : label ∈ "s8" :: names) :
    Text.readUnsigned 10 UInt64.size label.toList ≠ .ok n := by
  intro hread
  have hnone := (names_apart label h).1
  rw [hread] at hnone
  cases hnone

theorem nodup_names : ("s8" :: names).Nodup := by decide

theorem idxOf?_names (h : names[n]? = some label) : names.idxOf? label = some n := by
  obtain ⟨hn, rfl⟩ := List.getElem?_eq_some_iff.1 h
  rw [List.idxOf?_eq_some_iff]
  refine ⟨hn, by simp, fun j hj => ?_⟩
  have hne : names[j] ≠ names[n] := fun heq =>
    absurd ((List.nodup_cons.1 nodup_names).2.getElem_inj_iff.1 heq) hj.ne
  simpa using hne

theorem reference_of_ofText? (h : ofText? text = some n) :
    Reference (stripDollar text.toList) n := by
  simp only [ofText?] at h
  split at h
  · rename_i m hread
    obtain ⟨-, s, digits, hs, hcs, hdigits⟩ :=
      (Text.readUnsigned_eq_ok_iff (by decide) (by decide) (by decide)).1 hread
    split_ifs at h with hn
    cases h
    rw [hcs]
    exact .number hs hdigits hn
  · split_ifs at h with hs8
    · cases h
      rw [← String.toList_ofList (l := stripDollar text.toList), hs8]
      exact .framePointer
    · obtain ⟨hn, hname, -⟩ := List.idxOf?_eq_some_iff.1 h
      rw [← String.toList_ofList (l := stripDollar text.toList)]
      exact .name (List.getElem?_eq_some_iff.2 ⟨hn, by simpa using hname⟩)

theorem ofText?_of_reference (h : Reference (stripDollar text.toList) n) :
    ofText? text = some n := by
  unfold ofText?
  generalize stripDollar text.toList = cs at h
  cases h with
  | number hs hdigits hn =>
    have hsize : n < UInt64.size := hn.trans (by decide)
    have hread := (Text.readUnsigned_eq_ok_iff (by decide) (by decide) (by decide)).2
      ⟨hsize, _, _, hs, rfl, hdigits⟩
    simp only [hread, if_pos hn]
  | @name label _ h =>
    have hmem : label ∈ names := List.mem_of_getElem? h
    have hs8 : label ≠ "s8" := fun heq =>
      (List.nodup_cons.1 nodup_names).1 (heq ▸ hmem)
    rcases hread : Text.readUnsigned 10 UInt64.size label.toList with e | m
    · simp only [hread, String.ofList_toList, if_neg hs8, idxOf?_names h]
    · exact absurd hread (not_number_of_mem (List.mem_cons_of_mem _ hmem))
  | framePointer => rfl

theorem Reference.head?_ne (h : Reference cs n) : cs.head? ≠ some '$' := by
  cases h with
  | @number s digits _ _ hdigits =>
    have hdollar : '$' ∉ s.chars ++ digits := by
      rw [List.mem_append, not_or]
      exact ⟨by cases s <;> decide, hdigits.notMem_of_digitValue? (by decide) rfl⟩
    exact fun hhead => hdollar (List.mem_of_mem_head? hhead)
  | name h => exact (names_apart _ (List.mem_cons_of_mem _ (List.mem_of_getElem? h))).2.2
  | framePointer => decide

theorem refers_iff : Refers text n ↔ Reference (stripDollar text.toList) n := by
  unfold Refers stripDollar
  constructor
  · rintro (h | ⟨cs, hcs, h⟩)
    · split
      · rename_i cs hcs
        exact absurd (by rw [hcs]; rfl) h.head?_ne
      · exact h
    · rw [hcs]
      exact h
  · intro h
    split at h
    · rename_i cs hcs
      exact .inr ⟨cs, hcs, h⟩
    · exact .inl h

theorem ofText?_eq_some_iff : ofText? text = some n ↔ Refers text n :=
  ⟨fun h => refers_iff.2 (reference_of_ofText? h), fun h => ofText?_of_reference (refers_iff.1 h)⟩

theorem names_name (hn : n < count) : names[n]? = some (name n) := by
  have hlength : n < names.length := hn
  simp [name, List.getElem?_eq_getElem hlength]

theorem refers_name (hn : n < count) : Refers (name n) n ∧ Refers ("$" ++ name n) n :=
  ⟨.inl (.name (names_name hn)), .inr ⟨(name n).toList, by simp, .name (names_name hn)⟩⟩

/-! ## Registers and integers -/

open CommandLine (integer integer_eq_ok_iff IntegerParts)

theorem integer_ne_ok_of_dollar (h : text.toList = '$' :: cs) : integer text ≠ .ok v := by
  intro hv
  obtain ⟨⟨outer, radix, inner, digits⟩, -, -, hs, ⟨m, hdigits, -⟩, -⟩ := integer_eq_ok_iff.1 hv
  have hdollar : '$' ∉ digits := hdigits.notMem_of_digitValue? radix.base_le (by
    cases radix <;> rfl)
  rw [h] at hs
  cases outer <;> cases radix <;> cases inner <;>
    simp_all [IntegerParts.chars, Sign.chars, CommandLine.Radix.mark]

theorem integer_of_number {s : Sign} {digits : List Char} (hdigits : Spells 10 digits n)
    (hs : s ≠ .minus) (hn : n < count) (htext : text.toList = s.chars ++ digits) :
    integer text = .ok (n : Int) := by
  have hsigned : s.apply (n : Int) = n := by
    cases s
    case minus => exact absurd rfl hs
    all_goals rfl
  have hcount : n < 32 := hn
  refine integer_eq_ok_iff.2
    ⟨⟨.absent, .decimal, s, digits⟩, n, Sign.noConfusion, htext.symm, ⟨n, hdigits, ?_⟩, ?_, ?_⟩
  · exact hsigned.symm
  · omega
  · exact (Int.bmod_eq_of_le (by omega) (by omega)).symm

theorem eq_of_integer (h : Refers text n) (hv : integer text = .ok v) : v = n := by
  rcases h with h | ⟨cs, hcs, -⟩
  · generalize hcs : text.toList = cs at h
    cases h with
    | number hs hdigits hn =>
      rw [integer_of_number hdigits hs hn hcs] at hv
      exact (Except.ok.inj hv).symm
    | name h =>
      rw [String.toList_inj.1 hcs] at hv
      rw [(names_apart _ (List.mem_cons_of_mem _ (List.mem_of_getElem? h))).2.1] at hv
      cases hv
    | framePointer =>
      rw [String.toList_inj.1 hcs] at hv
      cases hv
  · exact absurd hv (integer_ne_ok_of_dollar hcs)

/-- A text is read as a register exactly if it refers to one: then the register exists, and if the
text is an integer as well, they are the same number. Every register is read from its name. -/
theorem ofText?_exactly (text : String) (n : Nat) :
    (ofText? text = some n ↔ Refers text n) ∧
      (ofText? text = some n → n < count ∧ ∀ v, integer text = .ok v → v = n) ∧
      (n < count → ofText? (name n) = some n ∧ ofText? ("$" ++ name n) = some n) := by
  refine ⟨ofText?_eq_some_iff, fun h => ⟨lt_of_ofText? h, fun v hv => ?_⟩, fun hn => ?_⟩
  · exact eq_of_integer (ofText?_eq_some_iff.1 h) hv
  · obtain ⟨hname, hdollar⟩ := refers_name hn
    exact ⟨ofText?_eq_some_iff.2 hname, ofText?_eq_some_iff.2 hdollar⟩

/-- A number with a plus and with zeros in front, longer than any number of 64 bits. -/
theorem ofText?_exactly_padded :
    Refers "+000000000000000000000000000030" 30 ∧
      ofText? "+000000000000000000000000000030" = some 30 ∧
      integer "+000000000000000000000000000030" = .ok 30 ∧
      (30 : Int) = (30 : Nat) ∧ (30 : Nat) < count ∧
      ofText? (name 30) = some 30 ∧ ofText? ("$" ++ name 30) = some 30 := by
  have hread : ofText? "+000000000000000000000000000030" = some 30 := by decide +kernel
  have hinteger : integer "+000000000000000000000000000030" = .ok 30 := by decide +kernel
  obtain ⟨hiff, hnumber, hname⟩ := ofText?_exactly "+000000000000000000000000000030" 30
  obtain ⟨hn, heq⟩ := hnumber hread
  exact ⟨hiff.1 hread, hread, hinteger, heq 30 hinteger, hn, hname hn⟩

end CookingIsa.Register
