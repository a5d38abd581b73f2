import Mathlib
import CookingIsa.Text.Numeral
import CookingIsa.Word

/-!
# Numerals are read as what they were written for

Digits are written from the last one forward and read from the first one on, and a longer numeral
is read as its front and then its last digit. So a number below the limit is read from its digits,
be they as many as it needs (`readDigits_toDigits`) or a fixed number of them
(`readDigits_hexDigits`).
-/

namespace CookingIsa

namespace Text

variable {radix limit n : Nat} {overflow : NumeralError} {cs : List Char}

theorem readDigits_append : ∀ (cs cs' : List Char) (n : Nat),
    readDigits radix limit overflow (cs ++ cs') n =
      (readDigits radix limit overflow cs n).bind (readDigits radix limit overflow cs')
  | [], _, _ => rfl
  | c :: cs, cs', n => by
    simp only [List.cons_append, readDigits]
    rcases digitValue? radix c with _ | d
    · rfl
    · dsimp only
      split_ifs
      · exact readDigits_append cs cs' _
      · rfl

theorem digitValue?_digitChar :
    ∀ radix ≤ 16, ∀ d < radix, digitValue? radix d.digitChar = some d := by
  decide +kernel

/-- The last digit is read behind a front that gives the number without it. -/
theorem readDigits_concat (hradix : radix ≤ 16) (hpos : 0 < radix) (hn : n < limit)
    (hfront : readDigits radix limit overflow cs 0 = .ok (n / radix)) :
    readDigits radix limit overflow (cs ++ [(n % radix).digitChar]) 0 = .ok n := by
  have hdigit := digitValue?_digitChar radix hradix _ (Nat.mod_lt n hpos)
  have hvalue : n / radix * radix + n % radix = n := Nat.div_add_mod' n radix
  simp [readDigits_append, hfront, Except.bind, readDigits, hdigit, hvalue, hn]

theorem readDigits_toDigits (hradix : radix ≤ 16) (hone : 1 < radix) (hn : n < limit) :
    readDigits radix limit overflow (Nat.toDigits radix n) 0 = .ok n := by
  induction n using Nat.strong_induction_on with
  | _ n ih =>
    rw [Nat.toDigits_eq_if hone]
    split_ifs with hlt
    · have hdigit := digitValue?_digitChar radix hradix n hlt
      simp [readDigits, hdigit, hn]
    · have hsmaller : n / radix < n := Nat.div_lt_self (by omega) hone
      exact readDigits_concat hradix (by omega) hn (ih _ hsmaller (hsmaller.trans hn))

theorem readDigits_hexDigits : ∀ (count : Nat) {n : Nat}, n < 16 ^ count → n < limit →
    readDigits 16 limit overflow (Word.hexDigits count n) 0 = .ok n
  | 0, n, hcount, _ => by
    obtain rfl : n = 0 := by simpa using hcount
    rfl
  | count + 1, n, hcount, hn => by
    have hfront : n / 16 < 16 ^ count := by
      rw [pow_succ] at hcount
      exact Nat.div_lt_of_lt_mul (by omega)
    exact readDigits_concat le_rfl (by omega) hn
      (readDigits_hexDigits count hfront ((Nat.div_le_self n 16).trans_lt hn))

/-! ## Without a sign -/

theorem readUnsigned_eq_readDigits (hcs : cs ≠ []) (hplus : '+' ∉ cs) :
    readUnsigned radix limit cs = readDigits radix limit .tooLarge cs 0 := by
  unfold readUnsigned
  split
  · exact absurd rfl hcs
  · exact absurd List.mem_cons_self hplus
  · rfl

theorem readSigned_eq_readDigits (hcs : cs ≠ []) (hplus : '+' ∉ cs) (hminus : '-' ∉ cs) :
    readSigned radix limit cs = (readDigits radix limit .tooLarge cs 0).map Int.ofNat := by
  unfold readSigned
  split
  · exact absurd rfl hcs
  · exact absurd List.mem_cons_self hplus
  · exact absurd List.mem_cons_self hminus
  · rfl

theorem not_mem_toDigits {c : Char} (hc : c.isDigit = false) (n : Nat) :
    c ∉ Nat.toDigits 10 n := by
  intro hmem
  have hdigit := Nat.isDigit_of_mem_toDigits (by decide) (by decide) hmem
  rw [hc] at hdigit
  cases hdigit

theorem readUnsigned_toDigits (hn : n < limit) :
    readUnsigned 10 limit (Nat.toDigits 10 n) = .ok n := by
  rw [readUnsigned_eq_readDigits Nat.toDigits_ne_nil (not_mem_toDigits (by decide) n)]
  exact readDigits_toDigits (by decide) (by decide) hn

theorem readSigned_toDigits (hn : n < limit) :
    readSigned 10 limit (Nat.toDigits 10 n) = .ok (n : Int) := by
  rw [readSigned_eq_readDigits Nat.toDigits_ne_nil (not_mem_toDigits (by decide) n)
    (not_mem_toDigits (by decide) n), readDigits_toDigits (by decide) (by decide) hn]
  rfl

theorem head?_toDigits_eq_zero {n : Nat} (h : (Nat.toDigits 10 n).head? = some '0') : n = 0 := by
  induction n using Nat.strong_induction_on with
  | _ n ih =>
    rw [Nat.toDigits_eq_if (by decide)] at h
    split_ifs at h with hlt
    · have hdigit : ∀ d < 10, Nat.digitChar d = '0' → d = 0 := by decide
      exact hdigit n hlt (Option.some.inj h)
    · rw [List.head?_append_of_ne_nil _ Nat.toDigits_ne_nil] at h
      have hfront := ih (n / 10) (by omega) h
      omega

theorem toDigits_of_head? {n : Nat} (h : (Nat.toDigits 10 n).head? = some '0') :
    Nat.toDigits 10 n = ['0'] := by
  rw [head?_toDigits_eq_zero h]
  rfl

theorem toList_toString_ofNat (n : Nat) :
    (toString (Int.ofNat n)).toList = Nat.toDigits 10 n := by
  rw [Int.toString_eq_repr, Int.repr_eq_if]
  simp

theorem toList_toString_negSucc (n : Nat) :
    (toString (Int.negSucc n)).toList = '-' :: Nat.toDigits 10 (n + 1) := by
  rw [Int.toString_eq_repr, Int.repr_eq_if, if_neg (by simp)]
  simp

end Text

/-! ## Hexadecimal words -/

namespace Word

theorem not_mem_hexDigits {c : Char} (hc : ∀ d < 16, Nat.digitChar d ≠ c) :
    ∀ count n : Nat, c ∉ hexDigits count n
  | 0, _ => List.not_mem_nil
  | count + 1, n => by
    intro h
    rcases List.mem_append.1 h with h | h
    · exact not_mem_hexDigits hc count _ h
    · exact hc _ (Nat.mod_lt n (by decide)) (List.mem_singleton.1 h).symm

theorem toList_text (w : Word) : w.text.toList = '0' :: 'x' :: hexDigits 8 w.toNat :=
  String.toList_ofList

end Word

end CookingIsa
