import Mathlib
import CookingIsa.Json.Token
import CookingIsa.Proofs.Spelling

/-!
# How tokens are written

The tokens of a JSON text by their grammar: marks, the three literals, numbers without a zero in
front of other digits, and texts of characters and escapes (`Token.Spelling`). The scanner takes
exactly such a token off the front of the characters, or the token it gives is broken
(`scanToken_append`, `exists_of_scanToken`). A number is taken as far as it goes, so behind it there
has to be something that it cannot go on with (`Stops`).
-/

namespace CookingIsa.Json

open Text (Sign Spells IsDigit)

/-- The characters are a part of a text: themselves, an escape, or the number of 16 bits. -/
inductive Piece.Spelling : Piece → List Char → Prop
  | plain {c : Char} (hc : ' ' ≤ c) (hquote : c ≠ '"') (hescape : c ≠ '\\') :
      Piece.Spelling (.char c) [c]
  | escape {e c : Char} (h : escape? e = some c) : Piece.Spelling (.char c) ['\\', e]
  | unit {digits : List Char} {n : Nat} (hlength : digits.length = 4) (h : Spells 16 digits n) :
      Piece.Spelling (.ofUnit n) ('\\' :: 'u' :: digits)

/-- The characters are the parts of a text, one after the other. -/
inductive SpellPieces : List Piece → List Char → Prop
  | nil : SpellPieces [] []
  | cons {p : Piece} {ps : List Piece} {l cs : List Char} (hp : p.Spelling l)
      (h : SpellPieces ps cs) : SpellPieces (p :: ps) (l ++ cs)

def IsDigits (cs : List Char) : Prop := cs ≠ [] ∧ ∀ c ∈ cs, c.isDigit = true

/-- How the digits of a fraction are written, which may be missing. -/
inductive SpellFraction : List Char → List Char → Prop
  | absent : SpellFraction [] []
  | present {digits : List Char} (h : IsDigits digits) : SpellFraction digits ('.' :: digits)

/-- How an exponent is written, which may be missing. -/
inductive SpellExponent : Option (Bool × List Char) → List Char → Prop
  | absent : SpellExponent none []
  | present {mark : Char} {s : Sign} {digits : List Char} (hmark : mark = 'e' ∨ mark = 'E')
      (h : IsDigits digits) :
      SpellExponent (some (s = .minus, digits)) (mark :: (s.chars ++ digits))

/-- How a number is written. No zero stands in front of other digits. -/
inductive Numeral.Spelling : Numeral → List Char → Prop
  | mk {negative : Bool} {whole digits fraction power : List Char}
      {exponent : Option (Bool × List Char)} (hwhole : IsDigits whole)
      (hzero : whole.head? = some '0' → whole = ['0']) (hfraction : SpellFraction digits fraction)
      (hexponent : SpellExponent exponent power) :
      Numeral.Spelling ⟨negative, whole, digits, exponent⟩
        ((if negative then ['-'] else []) ++ (whole ++ (fraction ++ power)))

namespace Token

/-- The character of a token that is only one. -/
def mark? : Token → Option Char
  | openObject => some '\x7b'
  | closeObject => some '\x7d'
  | openArray => some '['
  | closeArray => some ']'
  | colon => some ':'
  | comma => some ','
  | _ => none

def literalWord : Option Bool → String
  | none => "null"
  | some true => "true"
  | some false => "false"

/-- How a token is written. -/
inductive Spelling : Token → List Char → Prop
  | mark {t : Token} {c : Char} (h : t.mark? = some c) : Spelling t [c]
  | literal (value : Option Bool) : Spelling (.literal value .whole) (literalWord value).toList
  | number {n : Numeral} {cs : List Char} (h : n.Spelling cs) : Spelling (.number n .whole) cs
  | text {ps : List Piece} {cs : List Char} (h : SpellPieces ps cs) :
      Spelling (.text ps .whole) ('"' :: (cs ++ ['"']))

end Token

variable {cs rest l digits : List Char} {c : Char} {n : Nat} {t : Token}

/-! ## Texts -/

theorem foldlM_digitValue?_eq_some_iff : ∀ {digits : List Char} {k : Nat},
    digits.foldlM (fun n c => (Text.digitValue? 16 c).map fun d => 16 * n + d) k = some n ↔
      ∃ ds, List.Forall₂ (IsDigit 16) digits ds ∧
        n = k * 16 ^ ds.length + Nat.ofDigits 16 ds.reverse
  | [], k => by simp [eq_comm]
  | c :: cs, k => by
    simp only [List.foldlM_cons, Option.bind_eq_bind, Option.bind_eq_some_iff,
      @foldlM_digitValue?_eq_some_iff cs]
    simp only [Option.map_eq_some_iff, Text.digitValue?_eq_some_iff le_rfl]
    constructor
    · rintro ⟨_, ⟨d, hd, rfl⟩, ds, hds, rfl⟩
      rw [Nat.mul_comm 16 k]
      exact ⟨d :: ds, .cons hd hds, (Text.ofDigits_cons ds).symm⟩
    · rintro ⟨_, hall, rfl⟩
      obtain ⟨d, ds, hd, hds, rfl⟩ := List.forall₂_cons_left_iff.1 hall
      refine ⟨_, ⟨d, hd, rfl⟩, ds, hds, ?_⟩
      rw [Nat.mul_comm 16 k]
      exact Text.ofDigits_cons ds

theorem hexNumber?_eq_some_iff (hne : digits ≠ []) :
    hexNumber? digits = some n ↔ Spells 16 digits n := by
  unfold hexNumber?
  rw [foldlM_digitValue?_eq_some_iff]
  simp only [Nat.zero_mul, Nat.zero_add, Spells, ne_eq, hne, not_false_eq_true, true_and]

theorem scanText_piece {p : Piece} (hp : p.Spelling l) (cs : List Char) (before : List Piece) :
    scanText (l ++ cs) before = scanText cs (p :: before) := by
  cases hp with
  | plain hc hquote hescape =>
    rw [List.singleton_append, scanText]
    · exact if_neg (not_lt.2 hc)
    all_goals simp_all
  | @escape e c h =>
    have hu : e ≠ 'u' := by
      rintro rfl
      cases h
    rw [List.cons_append, List.singleton_append, scanText]
    · simp only [h]
    all_goals simp_all
  | @unit digits n hlength h =>
    obtain ⟨a, b, c, d, rfl⟩ := List.length_eq_four.1 hlength
    simp only [List.cons_append, List.nil_append, scanText,
      (hexNumber?_eq_some_iff (List.cons_ne_nil _ _)).2 h]

theorem scanText_of_spellPieces {ps : List Piece} (h : SpellPieces ps cs) (before : List Piece) :
    scanText (cs ++ '"' :: rest) before = (.text (before.reverse ++ ps) .whole, rest) := by
  induction h generalizing before with
  | nil => simp [scanText]
  | cons hp _ ih =>
    rw [List.append_assoc, scanText_piece hp, ih, List.reverse_cons, List.append_assoc]
    rfl

/-- Behind the parts before, the characters are those of a whole text and then the rest. -/
def ScansText (before : List Piece) (cs : List Char) (t : Token) (rest : List Char) : Prop :=
  ∃ ps l, cs = l ++ '"' :: rest ∧ SpellPieces ps l ∧ t = .text (before.reverse ++ ps) .whole

theorem ScansText.cons {p : Piece} {before : List Piece} (hp : p.Spelling l)
    (h : ScansText (p :: before) cs t rest) : ScansText before (l ++ cs) t rest := by
  obtain ⟨ps, l', rfl, hps, rfl⟩ := h
  refine ⟨p :: ps, l ++ l', (List.append_assoc ..).symm, .cons hp hps, ?_⟩
  rw [List.reverse_cons, List.append_assoc]
  rfl

theorem isWhole_text_iff {ps : List Piece} {e : Ending} :
    (Token.text ps e).isWhole = true ↔ e = .whole := decide_eq_true_iff

theorem scansText_of_scanText {before : List Piece} (h : scanText cs before = (t, rest))
    (ht : t.isWhole = true) : ScansText before cs t rest := by
  fun_induction scanText cs before generalizing t rest with
  | case2 cs before =>
    cases h
    exact ⟨[], [], rfl, .nil, by rw [List.append_nil]⟩
  | case4 a b c d cs before n hn ih =>
    have hunit := Piece.Spelling.unit rfl ((hexNumber?_eq_some_iff (List.cons_ne_nil _ _)).1 hn)
    exact (ih h ht).cons hunit
  | case7 e cs before _ _ c hc ih => exact (ih h ht).cons (.escape hc)
  | case10 c cs before hquote hlone _ _ hescape hc ih =>
    have hbackslash : c ≠ '\\' := by
      rintro rfl
      cases cs with
      | nil => exact hlone rfl rfl
      | cons e cs => exact hescape e cs rfl rfl
    exact (ih h ht).cons (.plain (not_lt.1 hc) hquote hbackslash)
  | case6 =>
    cases h
    rw [isWhole_text_iff] at ht
    split_ifs at ht
  | case1 | case3 | case5 | case8 | case9 =>
    cases h
    cases ht

/-! ## Numbers -/

/-- The characters do not go on with a number. -/
def Stops (cs : List Char) : Prop :=
  ∀ c ∈ cs.head?, c.isDigit = false ∧ c ≠ '.' ∧ c ≠ 'e' ∧ c ≠ 'E'

theorem scanDigits_append (hdigits : ∀ c ∈ digits, c.isDigit = true)
    (hrest : ∀ c ∈ rest.head?, c.isDigit = false) :
    scanDigits (digits ++ rest) = (digits, rest) := by
  rw [scanDigits, List.span_eq_takeWhile_dropWhile, List.takeWhile_append_of_pos hdigits,
    List.dropWhile_append_of_pos hdigits]
  cases rest with
  | nil => simp
  | cons c rest =>
    have hc := hrest c rfl
    simp [hc]

theorem eq_of_scanDigits (h : scanDigits cs = (digits, rest)) :
    cs = digits ++ rest ∧ ∀ c ∈ digits, c.isDigit = true := by
  rw [scanDigits, List.span_eq_takeWhile_dropWhile] at h
  cases h
  exact ⟨List.takeWhile_append_dropWhile.symm, fun c hc => List.mem_takeWhile_imp hc⟩

theorem not_isWhole_brokenBy (n : Numeral) (cs : List Char) :
    (Token.number n (brokenBy cs)).isWhole = false := by
  unfold brokenBy
  split_ifs <;> rfl

/-- Whether there is a minus in front, and what follows a sign. -/
def signOf : List Char → Bool × List Char
  | '+' :: cs => (false, cs)
  | '-' :: cs => (true, cs)
  | cs => (false, cs)

theorem signOf_append (s : Sign) (hdigits : IsDigits digits) :
    signOf (s.chars ++ (digits ++ rest)) = (decide (s = .minus), digits ++ rest) := by
  cases s
  case absent =>
    obtain ⟨d, ds, rfl⟩ := List.exists_cons_of_ne_nil hdigits.1
    have hd : d.isDigit = true := hdigits.2 d List.mem_cons_self
    rw [Sign.chars, List.nil_append, List.cons_append]
    unfold signOf
    split
    · simp_all
    · simp_all
    · rfl
  all_goals rfl

theorem exists_sign (cs : List Char) :
    ∃ s : Sign, cs = s.chars ++ (signOf cs).2 ∧ (signOf cs).1 = decide (s = .minus) := by
  unfold signOf
  split
  · exact ⟨.plus, rfl, rfl⟩
  · exact ⟨.minus, rfl, rfl⟩
  · exact ⟨.absent, rfl, rfl⟩

theorem exponent_eq (n : Numeral) (cs : List Char) : scanExponent.exponent n cs =
    match scanDigits (signOf cs).2 with
    | ([], rest) => (.number n (brokenBy rest), rest)
    | (digits, rest) =>
      (.number { n with exponent := some ((signOf cs).1, digits) } .whole, rest) := rfl

section

variable {n : Numeral} {negative : Bool} {whole fraction : List Char}
  {exponent : Option (Bool × List Char)}

theorem scanExponent_append (h : SpellExponent exponent l) (hrest : Stops rest) :
    scanExponent ⟨negative, whole, fraction, none⟩ (l ++ rest) =
      (.number ⟨negative, whole, fraction, exponent⟩ .whole, rest) := by
  cases h with
  | absent =>
    rw [List.nil_append]
    unfold scanExponent
    split
    · simp [Stops] at hrest
    · simp [Stops] at hrest
    · rfl
  | @present mark s digits hmark hdigits =>
    have hscan := scanDigits_append hdigits.2 fun c hc => (hrest c hc).1
    have hexponent : scanExponent.exponent ⟨negative, whole, fraction, none⟩
        (s.chars ++ (digits ++ rest)) =
          (.number ⟨negative, whole, fraction, some (s = .minus, digits)⟩ .whole, rest) := by
      rw [exponent_eq, signOf_append s hdigits, hscan]
      obtain ⟨d, ds, rfl⟩ := List.exists_cons_of_ne_nil hdigits.1
      rfl
    rw [List.cons_append, List.append_assoc]
    rcases hmark with rfl | rfl <;> exact hexponent

theorem exists_of_scanExponent
    (h : scanExponent ⟨negative, whole, fraction, none⟩ cs = (t, rest)) (ht : t.isWhole = true) :
    ∃ exponent l, cs = l ++ rest ∧ SpellExponent exponent l ∧
      t = .number ⟨negative, whole, fraction, exponent⟩ .whole := by
  have hexponent : ∀ {mark : Char} {cs : List Char}, (mark = 'e' ∨ mark = 'E') →
      scanExponent.exponent ⟨negative, whole, fraction, none⟩ cs = (t, rest) →
      ∃ exponent l, mark :: cs = l ++ rest ∧ SpellExponent exponent l ∧
        t = .number ⟨negative, whole, fraction, exponent⟩ .whole := by
    intro mark cs hmark h
    obtain ⟨s, hcs, hs⟩ := exists_sign cs
    rw [exponent_eq, hs] at h
    rcases hscan : scanDigits (signOf cs).2 with ⟨_ | ⟨d, ds⟩, r⟩ <;> rw [hscan] at h
    · cases h
      rw [not_isWhole_brokenBy] at ht
      cases ht
    · obtain ⟨htail, hall⟩ := eq_of_scanDigits hscan
      cases h
      rw [hcs, htail]
      refine ⟨_, mark :: (s.chars ++ (d :: ds)), ?_,
        .present hmark ⟨List.cons_ne_nil _ _, hall⟩, rfl⟩
      simp only [List.cons_append, List.append_assoc]
  unfold scanExponent at h
  split at h
  · exact hexponent (.inl rfl) h
  · exact hexponent (.inr rfl) h
  · cases h
    exact ⟨none, [], rfl, .absent, rfl⟩

/-- What follows the digits of a whole number or a fraction does not go on with them. -/
theorem SpellExponent.noDigit (h : SpellExponent exponent l) (hrest : Stops rest) :
    ∀ c ∈ (l ++ rest).head?, c.isDigit = false ∧ c ≠ '.' := by
  cases h with
  | absent => exact fun c hc => ⟨(hrest c hc).1, (hrest c hc).2.1⟩
  | present hmark =>
    rintro c hc
    obtain rfl := Option.some.inj hc
    rcases hmark with rfl | rfl <;> decide

theorem scanFraction_append {power : List Char} (h : SpellFraction fraction l)
    (hexponent : SpellExponent exponent power) (hrest : Stops rest) :
    scanFraction ⟨negative, whole, [], none⟩ (l ++ (power ++ rest)) =
      (.number ⟨negative, whole, fraction, exponent⟩ .whole, rest) := by
  have hscan : scanExponent ⟨negative, whole, fraction, none⟩ (power ++ rest) =
      (.number ⟨negative, whole, fraction, exponent⟩ .whole, rest) :=
    scanExponent_append hexponent hrest
  have hstop := hexponent.noDigit hrest
  cases h with
  | absent =>
    rw [List.nil_append]
    unfold scanFraction
    split
    · simp_all
    · exact hscan
  | present hdigits =>
    rw [List.cons_append, scanFraction, scanDigits_append hdigits.2 fun c hc => (hstop c hc).1]
    obtain ⟨d, ds, rfl⟩ := List.exists_cons_of_ne_nil hdigits.1
    exact hscan

theorem exists_of_scanFraction (h : scanFraction ⟨negative, whole, [], none⟩ cs = (t, rest))
    (ht : t.isWhole = true) :
    ∃ fraction exponent l power, cs = l ++ (power ++ rest) ∧ SpellFraction fraction l ∧
      SpellExponent exponent power ∧ t = .number ⟨negative, whole, fraction, exponent⟩ .whole := by
  unfold scanFraction at h
  split at h
  · rename_i cs
    rcases hscan : scanDigits cs with ⟨_ | ⟨d, ds⟩, r⟩ <;> rw [hscan] at h
    · cases h
      rw [not_isWhole_brokenBy] at ht
      cases ht
    · obtain ⟨rfl, hall⟩ := eq_of_scanDigits hscan
      obtain ⟨exponent, power, rfl, hexponent, rfl⟩ := exists_of_scanExponent h ht
      exact ⟨d :: ds, exponent, '.' :: (d :: ds), power, rfl,
        .present ⟨List.cons_ne_nil _ _, hall⟩, hexponent, rfl⟩
  · obtain ⟨exponent, power, rfl, hexponent, rfl⟩ := exists_of_scanExponent h ht
    exact ⟨[], exponent, [], power, rfl, .absent, hexponent, rfl⟩

theorem scanNumber_append (h : n.Spelling l) (hrest : Stops rest) :
    ∃ cs, l = (if n.negative then ['-'] else []) ++ cs ∧ (∃ d ∈ cs.head?, d.isDigit = true) ∧
      scanNumber n.negative (cs ++ rest) = (.number n .whole, rest) := by
  cases h with
  | @mk negative whole digits fraction power exponent hwhole hzero hfraction hexponent =>
    have hscan : scanFraction ⟨negative, whole, [], none⟩ (fraction ++ (power ++ rest)) =
        (.number ⟨negative, whole, digits, exponent⟩ .whole, rest) :=
      scanFraction_append hfraction hexponent hrest
    have hstop : ∀ c ∈ (fraction ++ (power ++ rest)).head?, c.isDigit = false := by
      cases hfraction with
      | absent => exact fun c hc => (hexponent.noDigit hrest c hc).1
      | present =>
        rintro c hc
        obtain rfl := Option.some.inj hc
        decide
    refine ⟨_, rfl, ?_, ?_⟩
    · obtain ⟨d, ds, rfl⟩ := List.exists_cons_of_ne_nil hwhole.1
      exact ⟨d, rfl, hwhole.2 d List.mem_cons_self⟩
    · rw [List.append_assoc, List.append_assoc, scanNumber, scanDigits_append hwhole.2 hstop]
      obtain ⟨d, ds, rfl⟩ := List.exists_cons_of_ne_nil hwhole.1
      split
      · simp_all
      · simp_all
      · simp_all

theorem exists_of_scanNumber (h : scanNumber negative cs = (t, rest)) (ht : t.isWhole = true) :
    ∃ n l, cs = l ++ rest ∧ Numeral.Spelling n ((if negative then ['-'] else []) ++ l) ∧
      t = .number n .whole := by
  unfold scanNumber at h
  split at h
  · cases h
    rw [not_isWhole_brokenBy] at ht
    cases ht
  · cases h
    cases ht
  · rename_i whole r hne hzero hscan
    obtain ⟨rfl, hall⟩ := eq_of_scanDigits hscan
    obtain ⟨digits, exponent, fraction, power, rfl, hfraction, hexponent, rfl⟩ :=
      exists_of_scanFraction h ht
    refine ⟨_, whole ++ (fraction ++ power), by simp, .mk ⟨?_, hall⟩ ?_ hfraction hexponent, rfl⟩
    · exact hne
    · intro hhead
      rcases whole with _ | ⟨c, _ | ⟨d, ds⟩⟩
      · cases hhead
      · rw [Option.some.inj hhead]
      · exact absurd (congrArg (· :: d :: ds) (Option.some.inj hhead)) (hzero d ds)

end

/-! ## Tokens -/

theorem scanWord_append : ∀ word rest : List Char, scanWord word (word ++ rest) = (.whole, rest)
  | [], _ => rfl
  | w :: word, rest => by
    rw [List.cons_append, scanWord, if_pos rfl]
    exact scanWord_append word rest

theorem eq_of_scanWord : ∀ {word cs : List Char}, scanWord word cs = (.whole, rest) →
    cs = word ++ rest
  | [], _, h => by
    cases h
    rfl
  | _ :: _, [], h => by cases h
  | w :: word, c :: cs, h => by
    rw [scanWord] at h
    split_ifs at h with hc
    · rw [hc, eq_of_scanWord h]
      rfl
    · cases h

theorem isSpace_of_isDigit (hc : c.isDigit = true) : isSpace c = false := by
  rw [Bool.eq_false_iff]
  intro h
  simp only [isSpace, Bool.or_eq_true, decide_eq_true_eq] at h
  rcases h with ((rfl | rfl) | rfl) | rfl <;> cases hc

theorem scanToken_digit (hc : c.isDigit = true) (cs : List Char) :
    scanToken c cs = scanNumber false (c :: cs) := by
  unfold scanToken
  split
  case h_12 => exact if_pos hc
  all_goals cases hc

def Token.isNumber : Token → Bool
  | number _ _ => true
  | _ => false

theorem scanToken_append (h : t.Spelling l) (hrest : t.isNumber = true → Stops rest) :
    ∃ c cs, l ++ rest = c :: cs ∧ isSpace c = false ∧ scanToken c cs = (t, rest) := by
  cases h with
  | @mark _ c h =>
    refine ⟨c, rest, rfl, ?_⟩
    cases t <;> cases h <;> exact ⟨rfl, rfl⟩
  | literal value =>
    have hword (word : String) (value : Option Bool) :
        scanToken.literal (word.toList ++ rest) value word = (.literal value .whole, rest) := by
      rw [scanToken.literal, scanWord_append]
    rcases value with _ | _ | _
    · exact ⟨'n', _, rfl, rfl, hword "ull" none⟩
    · exact ⟨'f', _, rfl, rfl, hword "alse" (some false)⟩
    · exact ⟨'t', _, rfl, rfl, hword "rue" (some true)⟩
  | @number n _ h =>
    obtain ⟨cs, rfl, ⟨d, hhead, hd⟩, hscan⟩ := scanNumber_append h (hrest rfl)
    rcases cs with _ | ⟨c, cs⟩
    · cases hhead
    · obtain rfl := Option.some.inj hhead
      cases hn : n.negative <;> rw [hn] at hscan
      · exact ⟨c, cs ++ rest, rfl, isSpace_of_isDigit hd, (scanToken_digit hd _).trans hscan⟩
      · exact ⟨'-', c :: cs ++ rest, rfl, rfl, hscan⟩
  | @text ps cs h =>
    refine ⟨'"', cs ++ '"' :: rest, by simp, rfl, ?_⟩
    exact scanText_of_spellPieces h []

theorem exists_of_scanToken (h : scanToken c cs = (t, rest)) (ht : t.isWhole = true) :
    ∃ l, c :: cs = l ++ rest ∧ t.Spelling l := by
  have hword {word : String} {value : Option Bool}
      (hvalue : (Token.literalWord value).toList = c :: word.toList)
      (h : scanToken.literal cs value word = (t, rest)) :
      ∃ l, c :: cs = l ++ rest ∧ t.Spelling l := by
    rw [scanToken.literal] at h
    rcases hscan : scanWord word.toList cs with ⟨ending, r⟩
    rw [hscan] at h
    cases h
    obtain rfl : ending = .whole := of_decide_eq_true ht
    rw [eq_of_scanWord hscan]
    exact ⟨c :: word.toList, rfl, hvalue ▸ .literal value⟩
  unfold scanToken at h
  split at h
  case h_7 =>
    obtain ⟨ps, l, rfl, hps, rfl⟩ := scansText_of_scanText h ht
    exact ⟨'"' :: (l ++ ['"']), by simp, .text hps⟩
  case h_8 =>
    obtain ⟨n, l, rfl, hn, rfl⟩ := exists_of_scanNumber h ht
    exact ⟨'-' :: l, rfl, .number hn⟩
  case h_9 => exact hword (by decide) h
  case h_10 => exact hword (by decide) h
  case h_11 => exact hword (by decide) h
  case h_12 =>
    split_ifs at h
    · obtain ⟨n, l, hcs, hn, rfl⟩ := exists_of_scanNumber h ht
      exact ⟨l, hcs, .number hn⟩
    · cases h
      cases ht
  all_goals
    cases h
    exact ⟨_, rfl, .mark rfl⟩

end CookingIsa.Json
