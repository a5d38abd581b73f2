import Mathlib
import CookingIsa.CommandLine.Literal
import CookingIsa.Proofs.Except
import CookingIsa.Proofs.Spelling

/-!
# Which texts are integers

An integer is read in two steps: a minus is taken off, and what is left is read as a number that may
have a sign of its own. So a text can have two signs, and a sign can stand between the mark of a
hexadecimal number and its digits. Both signs count (`integer_eq_ok_iff`), so five with two
minuses in front of it is five. A text that is read has one sign in front, if any, exactly if no
sign stands behind a minus or a mark (`integer_exactly`).
-/

namespace CookingIsa.CommandLine

open Text (Sign Spells)

/-- What digits are written in, and what stands in front of them to tell. -/
inductive Radix where
  | decimal
  | hexadecimal
deriving DecidableEq

namespace Radix

def base : Radix → Nat
  | decimal => 10
  | hexadecimal => 16

def mark : Radix → List Char
  | decimal => []
  | hexadecimal => ['0', 'x']

theorem base_pos (r : Radix) : 0 < r.base := by cases r <;> decide

theorem base_le (r : Radix) : r.base ≤ 16 := by cases r <;> decide

end Radix

/-- The parts of a written integer, with the two places where a sign may stand. -/
structure IntegerParts where
  outer : Sign
  radix : Radix
  inner : Sign
  digits : List Char

namespace IntegerParts

def chars (s : IntegerParts) : List Char :=
  s.outer.chars ++ (s.radix.mark ++ (s.inner.chars ++ s.digits))

/-- The digits spell a number that is `z` with both signs. -/
def Denotes (s : IntegerParts) (z : Int) : Prop :=
  ∃ n, Spells s.radix.base s.digits n ∧ z = s.outer.apply (s.inner.apply n)

/-- A sign stands behind a minus or behind the mark of the radix. -/
def Doubled (s : IntegerParts) : Prop :=
  s.inner ≠ .absent ∧ (s.outer = .minus ∨ s.outer = .absent ∧ s.radix = .hexadecimal)

variable {s : IntegerParts} {z : Int} {cs : List Char}

theorem eq_absent_of_mark {r : Radix} {digits : List Char} {sign : Sign} {n : Nat}
    (h : Spells r.base digits n) (hcs : r.mark ++ digits = sign.chars ++ cs) : sign = .absent := by
  cases r
  case decimal =>
    rw [Radix.mark, List.nil_append] at hcs
    exact (hcs ▸ h).eq_absent (Radix.base_le _)
  case hexadecimal => cases sign <;> simp_all [Radix.mark, Sign.chars]

theorem exists_of_minus (houter : s.outer ≠ .plus) (hs : s.chars = '-' :: cs) (hz : s.Denotes z) :
    ∃ t : IntegerParts, t.outer = .absent ∧ t.chars = cs ∧ t.Denotes (-z) := by
  obtain ⟨outer, radix, inner, digits⟩ := s
  obtain ⟨n, hspells, rfl⟩ := hz
  cases outer
  case plus => exact absurd rfl houter
  case minus =>
    exact ⟨⟨.absent, radix, inner, digits⟩, rfl, List.tail_eq_of_cons_eq hs, n, hspells, neg_neg _⟩
  case absent =>
    -- The minus is then the sign of decimal digits.
    cases inner
    case absent =>
      have hsign : radix.mark ++ digits = Sign.minus.chars ++ cs := hs
      cases eq_absent_of_mark hspells hsign
    case plus => cases radix <;> simp [chars, Radix.mark, Sign.chars] at hs
    case minus =>
      cases radix
      case decimal =>
        exact ⟨⟨.absent, .decimal, .absent, digits⟩, rfl, List.tail_eq_of_cons_eq hs, n, hspells,
          neg_neg _⟩
      case hexadecimal => simp [chars, Radix.mark, Sign.chars] at hs

theorem mark_append_ne {r r' : Radix} {digits : List Char} {sign : Sign} {n : Nat}
    (h : Spells r.base digits n) (hsign : sign ≠ .absent) :
    r'.mark ++ (sign.chars ++ cs) ≠ r.mark ++ digits := by
  intro hcs
  cases r'
  case decimal => exact hsign (eq_absent_of_mark h hcs.symm)
  case hexadecimal =>
    cases r
    case decimal =>
      obtain ⟨-, -, hx⟩ := h.notMem (Radix.base_le _)
      have hdigits : '0' :: 'x' :: (sign.chars ++ cs) = digits := hcs
      exact hx (hdigits ▸ List.mem_cons_of_mem _ List.mem_cons_self)
    case hexadecimal =>
      have hdigits : sign.chars ++ cs = digits := List.append_cancel_left hcs
      exact hsign ((hdigits ▸ h).eq_absent (Radix.base_le _))

/-- A text with a doubled sign cannot be taken for one with a sign in front only. -/
theorem Doubled.chars_ne (hs : s.Doubled) {t : IntegerParts} (hinner : t.inner = .absent)
    (ht : t.Denotes z) : s.chars ≠ t.chars := by
  obtain ⟨outer, radix, inner, digits⟩ := t
  obtain rfl : inner = .absent := hinner
  obtain ⟨n, hspells, -⟩ := ht
  obtain ⟨hsign, hplace⟩ := hs
  intro hchars
  simp only [chars] at hchars
  rcases hplace with hminus | ⟨habsent, hmark⟩
  · rw [hminus] at hchars
    cases outer
    case absent => cases eq_absent_of_mark hspells hchars.symm
    case plus => simp [Sign.chars] at hchars
    case minus => exact mark_append_ne hspells hsign (List.tail_eq_of_cons_eq hchars)
  · rw [habsent] at hchars
    cases outer
    case absent => exact mark_append_ne hspells hsign hchars
    all_goals simp [hmark, Radix.mark, Sign.chars] at hchars

theorem exists_oneSigned (houter : s.outer ≠ .plus) (hs : ¬ s.Doubled) (hz : s.Denotes z) :
    ∃ t : IntegerParts, t.inner = .absent ∧ t.chars = s.chars ∧ t.Denotes z := by
  obtain ⟨outer, radix, inner, digits⟩ := s
  by_cases hinner : inner = .absent
  · exact ⟨⟨outer, radix, inner, digits⟩, hinner, rfl, hz⟩
  · have hplace : ¬ (outer = .minus ∨ outer = .absent ∧ radix = .hexadecimal) :=
      fun h => hs ⟨hinner, h⟩
    obtain ⟨n, hspells, rfl⟩ := hz
    cases outer
    case plus => exact absurd rfl houter
    case minus => exact absurd (.inl rfl) hplace
    case absent =>
      cases radix
      case hexadecimal => exact absurd (.inr ⟨rfl, rfl⟩) hplace
      case decimal => exact ⟨⟨inner, .decimal, .absent, digits⟩, rfl, rfl, n, hspells, rfl⟩

end IntegerParts

/-! ## Numbers -/

variable {text : String} {v z n : Int} {cs : List Char} {e : IntegerError}

theorem negate_eq_ok_iff : negate n = .ok z ↔ z = -n ∧ -2 ^ 63 ≤ z ∧ z < 2 ^ 63 := by
  unfold negate
  split_ifs with hfits
  · rw [Except.ok.injEq]
    omega
  · refine iff_of_false (by simp) ?_
    omega

theorem readSigned_radix_eq_ok_iff (r : Radix) :
    Text.readSigned r.base (UInt64.size / 2) cs = .ok z ↔
      (-2 ^ 63 ≤ z ∧ z < 2 ^ 63) ∧ ∃ (sign : Sign) (digits : List Char) (n : Nat),
        cs = sign.chars ++ digits ∧ Spells r.base digits n ∧ z = sign.apply n := by
  have hsize : ((UInt64.size / 2 : Nat) : Int) = 2 ^ 63 := by norm_num [UInt64.size]
  rw [Text.readSigned_eq_ok_iff r.base_pos r.base_le (by decide), hsize]

theorem magnitude_eq_ok_iff :
    magnitude cs = .ok z ↔ (-2 ^ 63 ≤ z ∧ z < 2 ^ 63) ∧
      ∃ s : IntegerParts, s.outer = .absent ∧ s.chars = cs ∧ s.Denotes z := by
  simp only [magnitude, mapError_eq_ok_iff]
  split
  · rename_i digits
    refine (readSigned_radix_eq_ok_iff .hexadecimal).trans (and_congr_right fun _ => ⟨?_, ?_⟩)
    · rintro ⟨sign, ds, n, rfl, hspells, rfl⟩
      exact ⟨⟨.absent, .hexadecimal, sign, ds⟩, rfl, rfl, n, hspells, rfl⟩
    · rintro ⟨⟨outer, radix, inner, ds⟩, houter, hs, n, hspells, rfl⟩
      obtain rfl : outer = .absent := houter
      cases radix
      case decimal =>
        cases inner
        case absent =>
          obtain rfl : ds = '0' :: 'x' :: digits := hs
          obtain ⟨-, -, hx⟩ := hspells.notMem (Radix.base_le _)
          exact absurd (List.mem_cons_of_mem _ List.mem_cons_self) hx
        all_goals simp [IntegerParts.chars, Radix.mark, Sign.chars] at hs
      case hexadecimal =>
        have hds : ['0', 'x'] ++ (inner.chars ++ ds) = ['0', 'x'] ++ digits := hs
        exact ⟨inner, ds, n, (List.append_cancel_left hds).symm, hspells, rfl⟩
  · rename_i hmark
    refine (readSigned_radix_eq_ok_iff .decimal).trans (and_congr_right fun _ => ⟨?_, ?_⟩)
    · rintro ⟨sign, ds, n, rfl, hspells, rfl⟩
      exact ⟨⟨.absent, .decimal, sign, ds⟩, rfl, rfl, n, hspells, rfl⟩
    · rintro ⟨⟨outer, radix, inner, ds⟩, houter, rfl, n, hspells, rfl⟩
      obtain rfl : outer = .absent := houter
      cases radix
      case decimal => exact ⟨inner, ds, n, rfl, hspells, rfl⟩
      case hexadecimal => exact absurd rfl (hmark _)

theorem number_bounds (h : number text = .ok z) : -2 ^ 63 ≤ z ∧ z < 2 ^ 63 := by
  unfold number at h
  split at h
  · obtain ⟨n, -, h⟩ := bind_eq_ok_iff.1 h
    exact (negate_eq_ok_iff.1 h).2
  · exact (magnitude_eq_ok_iff.1 h).1

/-- The least number of 64 bits is left out: behind a minus, its digits are too large a number. -/
theorem number_eq_ok_iff (hlow : -2 ^ 63 < z) (hhigh : z < 2 ^ 63) :
    number text = .ok z ↔
      ∃ s : IntegerParts, s.outer ≠ .plus ∧ s.chars = text.toList ∧ s.Denotes z := by
  unfold number
  generalize text.toList = cs
  constructor
  · intro h
    split at h
    · obtain ⟨y, hy, h⟩ := bind_eq_ok_iff.1 h
      obtain ⟨rfl, -⟩ := negate_eq_ok_iff.1 h
      obtain ⟨-, ⟨outer, radix, inner, digits⟩, houter, rfl, n, hspells, rfl⟩ :=
        magnitude_eq_ok_iff.1 hy
      obtain rfl : outer = .absent := houter
      exact ⟨⟨.minus, radix, inner, digits⟩, Sign.noConfusion, rfl, n, hspells, rfl⟩
    · obtain ⟨-, s, houter, rfl, hz⟩ := magnitude_eq_ok_iff.1 h
      exact ⟨s, by simp [houter], rfl, hz⟩
  · rintro ⟨s, houter, rfl, hz⟩
    split
    · rename_i digits hs
      obtain ⟨t, htouter, ht, hneg⟩ := IntegerParts.exists_of_minus houter hs hz
      have hread := magnitude_eq_ok_iff.2 ⟨⟨by omega, by omega⟩, t, htouter, ht, hneg⟩
      exact bind_eq_ok_iff.2
        ⟨_, hread, negate_eq_ok_iff.2 ⟨(neg_neg z).symm, hlow.le, hhigh⟩⟩
    · rename_i hminus
      obtain ⟨outer, radix, inner, digits⟩ := s
      cases outer
      case absent => exact magnitude_eq_ok_iff.2 ⟨⟨hlow.le, hhigh⟩, _, rfl, rfl, hz⟩
      case plus => exact absurd rfl houter
      case minus => exact absurd rfl (hminus _)

/-! ## Integers -/

theorem integer_eq_ok_iff_number : integer text = .ok v ↔
    ∃ z, number text = .ok z ∧ (-2 ^ 31 ≤ z ∧ z < 2 ^ 32) ∧ v = z.bmod (2 ^ 32) := by
  rw [integer, bind_eq_ok_iff]
  refine exists_congr fun z => and_congr_right fun _ => ?_
  split_ifs with hrange
  · simp only [pure, Except.pure, Except.ok.injEq, BitVec.toInt_ofInt]
    exact ⟨fun h => ⟨by omega, h.symm⟩, fun h => h.2.symm⟩
  · refine iff_of_false not_false ?_
    omega

theorem integer_eq_ok_iff : integer text = .ok v ↔
    ∃ (s : IntegerParts) (z : Int), s.outer ≠ .plus ∧ s.chars = text.toList ∧ s.Denotes z ∧
      (-2 ^ 31 ≤ z ∧ z < 2 ^ 32) ∧ v = z.bmod (2 ^ 32) := by
  rw [integer_eq_ok_iff_number]
  constructor
  · rintro ⟨z, hz, hrange, hv⟩
    obtain ⟨s, houter, hs, hdenotes⟩ := (number_eq_ok_iff (by omega) (by omega)).1 hz
    exact ⟨s, z, houter, hs, hdenotes, hrange, hv⟩
  · rintro ⟨s, z, houter, hs, hdenotes, hrange, hv⟩
    exact ⟨z, (number_eq_ok_iff (by omega) (by omega)).2 ⟨s, houter, hs, hdenotes⟩, hrange, hv⟩

/-- A text is read exactly if it is written with a minus, a mark and a sign of the digits, each of
which may be left out, for a number in range. Such a text is also written with one sign in front, if
any, unless a sign is doubled. -/
theorem integer_exactly (text : String) (v : Int) :
    (integer text = .ok v ↔
      ∃ (s : IntegerParts) (z : Int), s.outer ≠ .plus ∧ s.chars = text.toList ∧ s.Denotes z ∧
        (-2 ^ 31 ≤ z ∧ z < 2 ^ 32) ∧ v = z.bmod (2 ^ 32)) ∧
    (integer text = .ok v →
      ((∃ (s : IntegerParts) (z : Int), s.inner = .absent ∧ s.chars = text.toList ∧ s.Denotes z ∧
        (-2 ^ 31 ≤ z ∧ z < 2 ^ 32) ∧ v = z.bmod (2 ^ 32)) ↔
      ∀ s : IntegerParts, s.chars = text.toList → ¬ s.Doubled)) := by
  refine ⟨integer_eq_ok_iff, fun h => ⟨?_, fun hsingle => ?_⟩⟩
  · rintro ⟨t, z, hinner, ht, hz, -⟩ s hs hdoubled
    exact hdoubled.chars_ne hinner hz (hs.trans ht.symm)
  · obtain ⟨s, z, houter, hs, hz, hv⟩ := integer_eq_ok_iff.1 h
    obtain ⟨t, hinner, ht, hz⟩ := IntegerParts.exists_oneSigned houter (hsingle s hs) hz
    exact ⟨t, z, hinner, ht.trans hs, hz, hv⟩

/-- The least number with sign, in hexadecimal. -/
theorem integer_exactly_least :
    integer "-0x80000000" = .ok (-0x80000000) ∧
    (∃ (s : IntegerParts) (z : Int), s.outer ≠ .plus ∧ s.chars = "-0x80000000".toList ∧
      s.Denotes z ∧ (-2 ^ 31 ≤ z ∧ z < 2 ^ 32) ∧ -0x80000000 = z.bmod (2 ^ 32)) ∧
    ((∃ (s : IntegerParts) (z : Int), s.inner = .absent ∧ s.chars = "-0x80000000".toList ∧
        s.Denotes z ∧ (-2 ^ 31 ≤ z ∧ z < 2 ^ 32) ∧ -0x80000000 = z.bmod (2 ^ 32)) ↔
      ∀ s : IntegerParts, s.chars = "-0x80000000".toList → ¬ s.Doubled) := by
  have hread : integer "-0x80000000" = .ok (-0x80000000) := rfl
  obtain ⟨hiff, hsingle⟩ := integer_exactly "-0x80000000" (-0x80000000)
  exact ⟨hread, hiff.1 hread, hsingle hread⟩

/-- Five with two minuses in front of it is read, though no integer with one sign is written so. -/
theorem integer_two_minuses : ¬ ∀ (text : String) (v : Int), integer text = .ok v →
    ∃ (s : IntegerParts) (z : Int), s.inner = .absent ∧ s.chars = text.toList ∧ s.Denotes z ∧
      (-2 ^ 31 ≤ z ∧ z < 2 ^ 32) ∧ v = z.bmod (2 ^ 32) := by
  intro hall
  obtain ⟨t, z, hinner, ht, hz, -⟩ := hall "--5" 5 rfl
  have hdoubled : IntegerParts.Doubled ⟨.minus, .decimal, .minus, ['5']⟩ :=
    ⟨Sign.noConfusion, .inl rfl⟩
  exact hdoubled.chars_ne hinner hz ht.symm

end CookingIsa.CommandLine
