import Mathlib
import CookingIsa.CommandLine.Literal
import CookingIsa.Proofs.Except
import CookingIsa.Proofs.Numeral

/-!
# Literals are read as what they were printed for

A word is printed in hexadecimal and read back as itself (`word_text`). A number is printed in
decimal, with a minus if it is negative, and read back as itself even where a register may stand:
one that is small enough is taken for a register, but then for the one of that number
(`operand_toString`).
-/

namespace CookingIsa

theorem Register.lt_of_ofText? {text : String} {n : Nat} (h : Register.ofText? text = some n) :
    n < Register.count := by
  simp only [Register.ofText?] at h
  split at h
  · split_ifs at h with hn
    cases h
    exact hn
  · split_ifs at h
    · cases h
      decide
    · obtain ⟨hlt, -⟩ := List.idxOf?_eq_some_iff.1 h
      exact hlt

namespace CommandLine

theorem word_text (w : Word) : word w.text = .ok w := by
  have hnil : Word.hexDigits 8 w.toNat ≠ [] := by
    rw [← List.length_pos_iff_ne_nil, Word.length_hexDigits]
    decide
  have hplus : '+' ∉ Word.hexDigits 8 w.toNat := Word.not_mem_hexDigits (by decide) 8 _
  have hgrouped : (Word.hexDigits 8 w.toNat).filter (fun c => c ≠ '_') =
      Word.hexDigits 8 w.toNat := by
    refine List.filter_eq_self.2 fun c hc => ?_
    simp only [decide_eq_true_eq]
    rintro rfl
    exact Word.not_mem_hexDigits (by decide) 8 _ hc
  have hread : Text.readUnsigned 16 UInt32.size (Word.hexDigits 8 w.toNat) = .ok w.toNat := by
    rw [Text.readUnsigned_eq_readDigits hnil hplus]
    exact Text.readDigits_hexDigits 8 w.isLt w.isLt
  simp only [word, wordNumber, Word.toList_text, hgrouped, hread]
  simp [Except.map]

/-! ## Decimal numbers -/

theorem magnitude_toDigits {n : Nat} (hn : n < 0x8000000000000000) :
    magnitude (Nat.toDigits 10 n) = .ok (n : Int) := by
  have hx : 'x' ∉ Nat.toDigits 10 n := Text.not_mem_toDigits (by decide) n
  have hread : Text.readSigned 10 (UInt64.size / 2) (Nat.toDigits 10 n) = .ok (n : Int) :=
    Text.readSigned_toDigits hn
  unfold magnitude
  split
  · rename_i digits hdigits
    rw [hdigits] at hx
    simp at hx
  · rw [hread]
    rfl

theorem negate_of_lt {n : Nat} (hn : n < 0x8000000000000000) : negate n = .ok (-n) :=
  if_pos (by omega)

variable {v : Int}

theorem number_toString (hlow : -0x80000000 ≤ v) (hhigh : v < 0x80000000) :
    number (toString v) = .ok v := by
  cases v with
  | ofNat n =>
    have hminus : '-' ∉ Nat.toDigits 10 n := Text.not_mem_toDigits (by decide) n
    unfold number
    rw [Text.toList_toString_ofNat]
    split
    · rename_i digits hdigits
      rw [hdigits] at hminus
      simp at hminus
    · exact magnitude_toDigits (by simp at hhigh; omega)
  | negSucc n =>
    have hn : n + 1 < 0x8000000000000000 := by omega
    simp only [number, Text.toList_toString_negSucc, magnitude_toDigits hn, bind, Except.bind]
    exact negate_of_lt hn

theorem integer_toString (hlow : -0x80000000 ≤ v) (hhigh : v < 0x80000000) :
    integer (toString v) = .ok v := by
  have hword : (BitVec.ofInt 32 v).toInt = v := by
    rw [BitVec.toInt_ofInt]
    exact Int.bmod_eq_of_le (by norm_num; omega) (by norm_num; omega)
  have hrange : -0x80000000 ≤ v ∧ v < 0x100000000 := by omega
  simp only [integer, number_toString hlow hhigh, bind, Except.bind, if_pos hrange, hword]
  rfl

/-! ## Numbers where a register may stand -/

theorem ofText?_ofNat {n : Nat} (hn : n < UInt64.size) :
    Register.ofText? (toString (Int.ofNat n)) = if n < Register.count then some n else none := by
  have hdollar : '$' ∉ Nat.toDigits 10 n := Text.not_mem_toDigits (by decide) n
  have hstrip : Register.stripDollar (Nat.toDigits 10 n) = Nat.toDigits 10 n := by
    unfold Register.stripDollar
    split
    · rename_i cs hcs
      rw [hcs] at hdollar
      simp at hdollar
    · rfl
  simp only [Register.ofText?, Text.toList_toString_ofNat, hstrip, Text.readUnsigned_toDigits hn]

/-- A text with a minus is no register. -/
theorem ofText?_of_minus {text : String} {cs : List Char} (h : text.toList = '-' :: cs) :
    Register.ofText? text = none := by
  have hminus : ∀ name ∈ "s8" :: Register.names, name.toList.head? ≠ some '-' := by
    decide +kernel
  have hother : ∀ name ∈ "s8" :: Register.names, String.ofList ('-' :: cs) ≠ name := by
    rintro name hname rfl
    exact hminus _ hname (by simp)
  have hstrip : Register.stripDollar ('-' :: cs) = '-' :: cs := rfl
  have hread : Text.readUnsigned 10 UInt64.size ('-' :: cs) = .error .invalidDigit := rfl
  simp only [Register.ofText?, h, hstrip, hread, hother "s8" List.mem_cons_self, if_false,
    List.idxOf?_eq_none_iff]
  intro hmem
  exact hother _ (List.mem_cons_of_mem _ hmem) rfl

theorem ofText?_negSucc (n : Nat) : Register.ofText? (toString (Int.negSucc n)) = none :=
  ofText?_of_minus (Text.toList_toString_negSucc n)

theorem operand_toString (hlow : -0x80000000 ≤ v) (hhigh : v < 0x80000000) :
    operand (toString v) = .ok v := by
  have hinteger := integer_toString hlow hhigh
  unfold operand
  cases v with
  | ofNat n =>
    have hn : n < UInt64.size := by
      simp at hhigh
      simp [UInt64.size]
      omega
    rw [ofText?_ofNat hn]
    split_ifs
    · rfl
    · exact hinteger
  | negSucc n =>
    rw [ofText?_negSucc]
    exact hinteger

theorem operand_name :
    ∀ n < Register.count, operand ("$" ++ Register.name n) = .ok (n : Int) := by
  decide +kernel

/-! ## Assignments -/

variable {text register value : String} {n : Nat}

end CommandLine

end CookingIsa
