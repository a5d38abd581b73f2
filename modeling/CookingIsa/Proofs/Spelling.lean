import Mathlib
import CookingIsa.Proofs.Numeral

/-!
# Which texts are numerals

Digits spell a number by place value, and zeros in front of them change nothing (`Spells`). Reading
them checks after each digit that the number so far is below the limit, which it is if the whole
number is (`readDigits_eq_ok_iff`). So a text is read exactly if it is the spelling of a number in
range, behind at most one sign (`readUnsigned_eq_ok_iff`, `readSigned_eq_ok_iff`).
-/

namespace CookingIsa.Text

/-- The character is the digit `d`; a letter may be written in either case. -/
def IsDigit (radix : Nat) (c : Char) (d : Nat) : Prop :=
  d < radix ∧ (c = d.digitChar ∨ c = d.digitChar.toUpper)

/-- The characters are digits, the highest first, that spell `n`. -/
def Spells (radix : Nat) (cs : List Char) (n : Nat) : Prop :=
  cs ≠ [] ∧ ∃ ds, List.Forall₂ (IsDigit radix) cs ds ∧ n = Nat.ofDigits radix ds.reverse

/-- What may stand in front of digits. -/
inductive Sign where
  | absent
  | plus
  | minus
deriving DecidableEq

namespace Sign

def chars : Sign → List Char
  | absent => []
  | plus => ['+']
  | minus => ['-']

def apply : Sign → Int → Int
  | minus, n => -n
  | _, n => n

end Sign

variable {radix limit n m : Nat} {overflow : NumeralError} {c : Char} {cs : List Char} {d : Nat}

theorem eq_digitChar_of_digitValue? :
    ∀ k < 103, ∀ d ∈ digitValue? 16 (Char.ofNat k),
      Char.ofNat k = d.digitChar ∨ Char.ofNat k = d.digitChar.toUpper := by
  decide +kernel

theorem isDigit_of_digitValue? (hradix : radix ≤ 16) (h : digitValue? radix c = some d) :
    IsDigit radix c d := by
  simp only [digitValue?, Option.ite_none_right_eq_some, Option.some.injEq] at h
  obtain ⟨hlt, hvalue⟩ := h
  have hsixteen : digitValue? 16 c = some d := by
    simp only [digitValue?, Option.ite_none_right_eq_some, Option.some.injEq]
    exact ⟨hlt.trans_le hradix, hvalue⟩
  -- The letters in lower case come last of all digits.
  have hlast : c.toNat < 103 := by
    have hle : ∀ x : Char, c ≤ x → c.toNat ≤ x.toNat := fun _ hx => hx
    by_contra hlarge
    rw [if_neg fun hc => hlarge ((hle '9' hc.2).trans_lt (by decide)),
      if_neg fun hc => hlarge ((hle 'f' hc.2).trans_lt (by decide)),
      if_neg fun hc => hlarge ((hle 'F' hc.2).trans_lt (by decide))] at hlt
    omega
  have hchar := eq_digitChar_of_digitValue? c.toNat hlast d
  rw [Char.ofNat_toNat] at hchar
  exact ⟨hvalue ▸ hlt, hchar hsixteen⟩

theorem digitValue?_toUpper :
    ∀ radix ≤ 16, ∀ d < radix, digitValue? radix d.digitChar.toUpper = some d := by
  decide +kernel

theorem digitValue?_eq_some_iff (hradix : radix ≤ 16) :
    digitValue? radix c = some d ↔ IsDigit radix c d := by
  refine ⟨isDigit_of_digitValue? hradix, ?_⟩
  rintro ⟨hd, rfl | rfl⟩
  · exact digitValue?_digitChar radix hradix d hd
  · exact digitValue?_toUpper radix hradix d hd

/-! ## Digits -/

theorem ofDigits_cons (ds : List Nat) :
    n * radix ^ (d :: ds).length + Nat.ofDigits radix (d :: ds).reverse =
      (n * radix + d) * radix ^ ds.length + Nat.ofDigits radix ds.reverse := by
  rw [List.reverse_cons, Nat.ofDigits_append, Nat.ofDigits_singleton, List.length_reverse,
    List.length_cons, pow_succ]
  ring

theorem readDigits_eq_ok_iff (hpos : 0 < radix) (hradix : radix ≤ 16) :
    ∀ {cs : List Char} {n : Nat}, n < limit →
      (readDigits radix limit overflow cs n = .ok m ↔ m < limit ∧
        ∃ ds, List.Forall₂ (IsDigit radix) cs ds ∧
          m = n * radix ^ ds.length + Nat.ofDigits radix ds.reverse)
  | [], n, hn => by
    simp only [readDigits, Except.ok.injEq, List.forall₂_nil_left_iff, exists_eq_left]
    simp only [List.length_nil, pow_zero, mul_one, List.reverse_nil, Nat.ofDigits_nil, add_zero]
    constructor
    · rintro rfl
      exact ⟨hn, rfl⟩
    · exact fun h => h.2.symm
  | c :: cs, n, hn => by
    have hcons : (∃ ds, List.Forall₂ (IsDigit radix) (c :: cs) ds ∧
          m = n * radix ^ ds.length + Nat.ofDigits radix ds.reverse) ↔
        ∃ d, digitValue? radix c = some d ∧ ∃ ds, List.Forall₂ (IsDigit radix) cs ds ∧
          m = (n * radix + d) * radix ^ ds.length + Nat.ofDigits radix ds.reverse := by
      constructor
      · rintro ⟨_, hall, hm⟩
        obtain ⟨d, ds, hd, hds, rfl⟩ := List.forall₂_cons_left_iff.1 hall
        exact ⟨d, (digitValue?_eq_some_iff hradix).2 hd, ds, hds, hm.trans (ofDigits_cons ds)⟩
      · rintro ⟨d, hd, ds, hds, hm⟩
        exact ⟨d :: ds, .cons ((digitValue?_eq_some_iff hradix).1 hd) hds,
          hm.trans (ofDigits_cons ds).symm⟩
    rw [hcons, readDigits]
    rcases digitValue? radix c with _ | d
    · simp
    · simp only [Option.some.injEq, exists_eq_left']
      split_ifs with hnext
      · exact readDigits_eq_ok_iff hpos hradix hnext
      · simp only [false_iff, not_and, not_exists]
        rintro hm ds - rfl
        have hgrows : n * radix + d ≤ (n * radix + d) * radix ^ ds.length :=
          Nat.le_mul_of_pos_right _ (Nat.pow_pos hpos)
        omega

theorem readDigits_zero_eq_ok_iff (hpos : 0 < radix) (hradix : radix ≤ 16) (hlimit : 0 < limit)
    (hcs : cs ≠ []) :
    readDigits radix limit overflow cs 0 = .ok n ↔ n < limit ∧ Spells radix cs n := by
  rw [readDigits_eq_ok_iff hpos hradix hlimit]
  simp only [Nat.zero_mul, Nat.zero_add, Spells, ne_eq, hcs, not_false_eq_true, true_and]

theorem spells_hexDigits {count : Nat} (hpos : 0 < count) (hn : n < 16 ^ count) :
    Spells 16 (Word.hexDigits count n) n := by
  have hne : Word.hexDigits count n ≠ [] := by
    rwa [← List.length_pos_iff_ne_nil, Word.length_hexDigits]
  have hread : readDigits 16 (n + 1) .tooLarge (Word.hexDigits count n) 0 = .ok n :=
    readDigits_hexDigits count hn n.lt_succ_self
  exact ((readDigits_zero_eq_ok_iff (by decide) le_rfl n.succ_pos hne).1 hread).2

theorem Spells.notMem_of_digitValue? (hradix : radix ≤ 16) (h : Spells radix cs n)
    (hc : digitValue? radix c = none) : c ∉ cs := by
  intro hmem
  obtain ⟨-, ds, hds, -⟩ := h
  obtain ⟨i, hi, rfl⟩ := List.getElem_of_mem hmem
  have hdigit := (digitValue?_eq_some_iff hradix).2 (hds.get hi (hds.length_eq ▸ hi))
  rw [List.get_eq_getElem, hc] at hdigit
  cases hdigit

theorem Spells.notMem (hradix : radix ≤ 16) (h : Spells radix cs n) :
    '+' ∉ cs ∧ '-' ∉ cs ∧ 'x' ∉ cs := by
  have hlarge : ¬ 16 < radix := by omega
  exact ⟨h.notMem_of_digitValue? hradix (if_neg hlarge),
    h.notMem_of_digitValue? hradix (if_neg hlarge), h.notMem_of_digitValue? hradix (if_neg hlarge)⟩

/-! ## Signs -/

theorem Spells.eq_absent (hradix : radix ≤ 16) {s : Sign} {rest : List Char}
    (h : Spells radix (s.chars ++ rest) n) : s = .absent := by
  obtain ⟨hplus, hminus, -⟩ := h.notMem hradix
  cases s
  case absent => rfl
  case plus => exact absurd List.mem_cons_self hplus
  case minus => exact absurd List.mem_cons_self hminus

theorem readUnsigned_eq_ok_iff (hpos : 0 < radix) (hradix : radix ≤ 16) (hlimit : 0 < limit) :
    readUnsigned radix limit cs = .ok n ↔ n < limit ∧ ∃ (s : Sign) (digits : List Char),
      s ≠ .minus ∧ cs = s.chars ++ digits ∧ Spells radix digits n := by
  constructor
  · intro h
    unfold readUnsigned at h
    split at h
    · cases h
    · obtain ⟨hn, hspells⟩ :=
        (readDigits_zero_eq_ok_iff hpos hradix hlimit (List.cons_ne_nil _ _)).1 h
      exact ⟨hn, .plus, _, by decide, rfl, hspells⟩
    · rename_i hcs _
      obtain ⟨hn, hspells⟩ := (readDigits_zero_eq_ok_iff hpos hradix hlimit hcs).1 h
      exact ⟨hn, .absent, _, by decide, rfl, hspells⟩
  · rintro ⟨hn, s, digits, hs, rfl, hspells⟩
    have hread : readDigits radix limit .tooLarge digits 0 = .ok n :=
      (readDigits_zero_eq_ok_iff hpos hradix hlimit hspells.1).2 ⟨hn, hspells⟩
    cases s
    case absent =>
      obtain ⟨hplus, -⟩ := hspells.notMem hradix
      exact (readUnsigned_eq_readDigits hspells.1 hplus).trans hread
    case plus =>
      obtain ⟨c, cs, rfl⟩ := List.exists_cons_of_ne_nil hspells.1
      exact hread
    case minus => exact absurd rfl hs

theorem map_readDigits_eq_ok_iff (hpos : 0 < radix) (hradix : radix ≤ 16) (hlimit : 0 < limit)
    (hcs : cs ≠ []) (f : Nat → Int) {z : Int} :
    (readDigits radix limit overflow cs 0).map f = .ok z ↔
      ∃ n, n < limit ∧ Spells radix cs n ∧ z = f n := by
  have hiff (n : Nat) :
      readDigits radix limit overflow cs 0 = .ok n ↔ n < limit ∧ Spells radix cs n :=
    readDigits_zero_eq_ok_iff hpos hradix hlimit hcs
  simp only [← and_assoc, ← hiff]
  rcases readDigits radix limit overflow cs 0 with e | n
  · simp [Except.map]
  · simp [Except.map, eq_comm]

theorem readSigned_eq_ok_iff (hpos : 0 < radix) (hradix : radix ≤ 16) (hlimit : 0 < limit)
    {z : Int} :
    readSigned radix limit cs = .ok z ↔ (-limit ≤ z ∧ z < limit) ∧
      ∃ (s : Sign) (digits : List Char) (n : Nat),
        cs = s.chars ++ digits ∧ Spells radix digits n ∧ z = s.apply n := by
  constructor
  · intro h
    unfold readSigned at h
    split at h
    · cases h
    · obtain ⟨n, hn, hspells, hz⟩ :=
        (map_readDigits_eq_ok_iff hpos hradix hlimit (List.cons_ne_nil _ _) _).1 h
      rw [Int.ofNat_eq_natCast] at hz
      exact ⟨by omega, .plus, _, n, rfl, hspells, hz⟩
    · obtain ⟨n, hn, hspells, hz⟩ :=
        (map_readDigits_eq_ok_iff hpos hradix (Nat.succ_pos _) (List.cons_ne_nil _ _) _).1 h
      rw [Int.ofNat_eq_natCast] at hz
      exact ⟨by omega, .minus, _, n, rfl, hspells, hz⟩
    · rename_i hcs _ _
      obtain ⟨n, hn, hspells, hz⟩ := (map_readDigits_eq_ok_iff hpos hradix hlimit hcs _).1 h
      rw [Int.ofNat_eq_natCast] at hz
      exact ⟨by omega, .absent, _, n, rfl, hspells, hz⟩
  · rintro ⟨⟨hlow, hhigh⟩, s, digits, n, rfl, hspells, rfl⟩
    cases s
    case absent =>
      obtain ⟨hplus, hminus, -⟩ := hspells.notMem hradix
      rw [Sign.chars, List.nil_append, readSigned_eq_readDigits hspells.1 hplus hminus]
      exact (map_readDigits_eq_ok_iff hpos hradix hlimit hspells.1 _).2
        ⟨n, Int.ofNat_lt.1 hhigh, hspells, rfl⟩
    case plus =>
      obtain ⟨c, cs, rfl⟩ := List.exists_cons_of_ne_nil hspells.1
      exact (map_readDigits_eq_ok_iff hpos hradix hlimit hspells.1 _).2
        ⟨n, Int.ofNat_lt.1 hhigh, hspells, rfl⟩
    case minus =>
      obtain ⟨c, cs, rfl⟩ := List.exists_cons_of_ne_nil hspells.1
      simp only [Sign.apply] at hlow
      exact (map_readDigits_eq_ok_iff hpos hradix (Nat.succ_pos limit) hspells.1 _).2
        ⟨n, by omega, hspells, rfl⟩

end CookingIsa.Text
