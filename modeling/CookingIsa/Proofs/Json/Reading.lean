import Mathlib
import CookingIsa.Json.Reader
import CookingIsa.Proofs.Except
import CookingIsa.Proofs.Json.Skipping

/-!
# What is read

A reader takes a value off the front of the tokens exactly if the value stands for what it gives
(`Reads`): a truth value (`reads_readBool`), a natural number (`reads_readNatural`), or one of
several names (`reads_readVariant`).
-/

namespace CookingIsa.Json

/-- The parts of a text are these characters. No half of a character stands alone. -/
inductive Decodes : List Piece → List Char → Prop
  | nil : Decodes [] []
  | char {c : Char} {ps : List Piece} {cs : List Char} (h : Decodes ps cs) :
      Decodes (.char c :: ps) (c :: cs)
  | halves {high low : Nat} {ps : List Piece} {cs : List Char} (h : Decodes ps cs) :
      Decodes (.high high :: .low low :: ps) (joinHalves high low :: cs)

/-- The value is the natural number `n`, written without a sign, a fraction and an exponent. Only
this notation makes a natural number here: `4096.0` and `1e3` are read as floating point, and so is
`-0`, whatever their values, and a setting that is a natural number refuses floating point. -/
inductive Tree.Denotes (n : Nat) : Tree → Prop
  | number {digits : List Char} (h : digitsValue digits = n) :
      Denotes n (.number ⟨false, digits, [], none⟩)

/-- The value is a name, as a text or as the only key of an object, with null under it. -/
inductive Tree.Names (name : String) : Tree → Prop
  | text {ps : List Piece} (h : Decodes ps name.toList) : Names name (.text ps)
  | object {ps : List Piece} (h : Decodes ps name.toList) :
      Names name (.object [(ps, .literal none)])

/-- What the reader gives is what the value at the front of the tokens stands for, and it takes
nothing else off them. -/
def Reads {α : Type} (r : Reader α) (P : Tree → α → Prop) : Prop :=
  ∀ ts a rest, r ts = .ok (a, rest) ↔ ∃ t : Tree, ts = t.tokens ++ rest ∧ P t a

variable {α : Type} {ts rest : List Token} {pieces : List Piece} {ending : Ending}
  {cs : List Char} {name : String}

theorem Reads.congr {r : Reader α} {P Q : Tree → α → Prop} (h : Reads r P)
    (hPQ : ∀ t a, P t a ↔ Q t a) : Reads r Q := by
  intro ts a rest
  rw [h ts a rest]
  simp only [hPQ]

/-! ## Texts -/

/-- A text without escapes is its characters. -/
theorem decodes_chars : ∀ cs : List Char, Decodes (cs.map .char) cs
  | [] => .nil
  | _ :: cs => .char (decodes_chars cs)

theorem textChars_eq_ok_iff :
    textChars pieces ending = .ok cs ↔ ending = .whole ∧ Decodes pieces cs := by
  fun_induction textChars pieces ending generalizing cs with
  | case1 ending =>
    rw [map_check_eq_ok_iff]
    refine and_congr_right fun _ => ⟨?_, ?_⟩
    · rintro rfl
      exact .nil
    · rintro ⟨⟩
      rfl
  | case2 c pieces ending ih =>
    simp only [map_eq_ok_iff, ih]
    constructor
    · rintro ⟨cs, ⟨rfl, hcs⟩, rfl⟩
      exact ⟨rfl, .char hcs⟩
    · rintro ⟨rfl, ⟨⟩⟩
      exact ⟨_, ⟨rfl, ‹_›⟩, rfl⟩
  | case3 high low pieces ending ih =>
    simp only [map_eq_ok_iff, ih]
    constructor
    · rintro ⟨cs, ⟨rfl, hcs⟩, rfl⟩
      exact ⟨rfl, .halves hcs⟩
    · rintro ⟨rfl, ⟨⟩⟩
      exact ⟨_, ⟨rfl, ‹_›⟩, rfl⟩
  | case4 => simp
  | case5 pieces ending hnil hchar hhalves =>
    refine iff_of_false (fun h => by cases h) ?_
    rintro ⟨-, ⟨⟩⟩
    · exact hnil rfl
    · exact hchar _ _ rfl
    · exact hhalves _ _ _ rfl

theorem textOf_eq_ok_iff :
    textOf pieces ending = .ok name ↔ ending = .whole ∧ Decodes pieces name.toList := by
  rw [textOf, map_eq_ok_iff]
  simp only [textChars_eq_ok_iff]
  constructor
  · rintro ⟨cs, h, rfl⟩
    rwa [String.toList_ofList]
  · exact fun h => ⟨name.toList, h, String.ofList_toList⟩

/-! ## Values without parts -/

theorem mismatch_ne_ok {wanted : String} {x : α × List Token} :
    mismatch wanted ts ≠ .ok x := by
  intro h
  unfold mismatch at h
  split at h
  case h_2 | h_3 | h_5 =>
    obtain ⟨_, -, h⟩ := bind_eq_ok_iff.1 h
    cases h
  case h_4 =>
    obtain ⟨_, -, h⟩ := bind_eq_ok_iff.1 h
    split at h <;> cases h
  all_goals cases h

theorem reads_readBool : Reads readBool fun t b => t = .literal (some b) := by
  intro ts b rest
  constructor
  · intro h
    unfold readBool at h
    split at h
    · obtain ⟨⟨⟩, hcheck, h⟩ := bind_eq_ok_iff.1 h
      obtain rfl := check_eq_ok_iff.1 hcheck
      cases h
      exact ⟨_, rfl, rfl⟩
    · exact absurd h mismatch_ne_ok
  · rintro ⟨_, rfl, rfl⟩
    rfl

/-- Of the numbers of 64 bits, those that are written as natural numbers are read as such. -/
theorem number?_eq_natural_iff {m : Numeral} {n : Nat} :
    m.number? = some (.natural n) ↔ (Tree.number m).Denotes n ∧ n < UInt64.size := by
  constructor
  · intro h
    rw [Numeral.number?] at h
    split_ifs at h with hnatural
    · obtain ⟨hfraction, hexponent, hnegative, hsize⟩ := hnatural
      obtain ⟨negative, whole, fraction, exponent⟩ := m
      obtain rfl := Bool.eq_false_iff.2 hnegative
      obtain rfl := List.isEmpty_iff.1 hfraction
      obtain rfl := Option.isNone_iff_eq_none.1 hexponent
      cases h
      exact ⟨.number rfl, hsize⟩
    · cases h
    · obtain ⟨_, -, h⟩ := Option.map_eq_some_iff.1 h
      cases h
  · rintro ⟨⟨rfl⟩, hsize⟩
    exact if_pos ⟨rfl, rfl, Bool.false_ne_true, hsize⟩

theorem reads_readNatural {bound : Nat} {wanted : String} (hbound : bound ≤ UInt64.size) :
    Reads (readNatural bound wanted) fun t n => t.Denotes n ∧ n < bound := by
  intro ts n rest
  constructor
  · intro h
    unfold readNatural at h
    split at h
    · obtain ⟨⟨⟩, hcheck, h⟩ := bind_eq_ok_iff.1 h
      obtain rfl := check_eq_ok_iff.1 hcheck
      split at h
      · cases h
      · rename_i k hk
        split_ifs at h with hlt
        · cases h
          exact ⟨.number _, rfl, (number?_eq_natural_iff.1 hk).1, hlt⟩
        · cases h
      · cases h
      · cases h
    · exact absurd h mismatch_ne_ok
  · rintro ⟨_, rfl, ⟨hdigits⟩, hlt⟩
    have hnumber := number?_eq_natural_iff.2 ⟨Tree.Denotes.number hdigits, hlt.trans_le hbound⟩
    simp [Tree.tokens, readNatural, hnumber, hlt, Ending.check]

/-! ## Names -/

theorem readColon_eq_ok_iff : readColon ts = .ok ((), rest) ↔ ts = .colon :: rest := by
  unfold readColon
  split <;> simp_all

theorem readObjectEnd_eq_ok_iff :
    readObjectEnd ts = .ok ((), rest) ↔ ts = .closeObject :: rest := by
  unfold readObjectEnd
  split <;> simp_all

theorem readNull_eq_ok_iff : readNull ts = .ok ((), rest) ↔ ts = .literal none .whole :: rest := by
  constructor
  · intro h
    unfold readNull at h
    split at h
    · obtain ⟨⟨⟩, hcheck, h⟩ := bind_eq_ok_iff.1 h
      obtain rfl := check_eq_ok_iff.1 hcheck
      cases h
      rfl
    · exact absurd h mismatch_ne_ok
  · rintro rfl
    rfl

theorem chooseVariant_eq_ok_iff {variants : List (String × α)} {a : α} :
    chooseVariant variants name = .ok a ↔ variants.lookup name = some a := by
  unfold chooseVariant
  cases variants.lookup name <;> simp

theorem reads_readVariant {variants : List (String × α)} :
    Reads (readVariant variants) fun t a =>
      ∃ name, t.Names name ∧ variants.lookup name = some a := by
  intro ts a rest
  constructor
  · intro h
    unfold readVariant at h
    split at h
    · cases h
    · simp only [bind_eq_ok_iff, textOf_eq_ok_iff, chooseVariant_eq_ok_iff] at h
      obtain ⟨name, ⟨rfl, hname⟩, a, hchoice, h⟩ := h
      cases h
      exact ⟨_, rfl, name, .text hname, hchoice⟩
    · simp only [bind_eq_ok_iff, textOf_eq_ok_iff, chooseVariant_eq_ok_iff] at h
      obtain ⟨name, ⟨rfl, hname⟩, a, hchoice, h⟩ := h
      obtain ⟨⟨⟨⟩, _⟩, hcolon, ⟨⟨⟩, _⟩, hnull, ⟨⟨⟩, _⟩, hend, h⟩ := h
      obtain rfl := readColon_eq_ok_iff.1 hcolon
      obtain rfl := readNull_eq_ok_iff.1 hnull
      obtain rfl := readObjectEnd_eq_ok_iff.1 hend
      cases h
      exact ⟨_, rfl, name, .object hname, hchoice⟩
    · cases h
    · cases h
  · rintro ⟨_, rfl, name, hname, hchoice⟩
    have hchosen := chooseVariant_eq_ok_iff.2 hchoice
    cases hname with
    | text hname =>
      have hname := textOf_eq_ok_iff.2 ⟨rfl, hname⟩
      exact bind_eq_ok_iff.2 ⟨name, hname, bind_eq_ok_iff.2 ⟨a, hchosen, rfl⟩⟩
    | object hname =>
      have hname := textOf_eq_ok_iff.2 ⟨rfl, hname⟩
      exact bind_eq_ok_iff.2 ⟨name, hname, bind_eq_ok_iff.2 ⟨a, hchosen, rfl⟩⟩

end CookingIsa.Json
