import Mathlib
import CookingIsa.CommandLine.Program
import CookingIsa.Proofs.Except
import CookingIsa.Proofs.Literal
import CookingIsa.Proofs.RoundTrip

/-!
# A decoded word is written so that it can be encoded again

A decoded word is written as its name, a blank, and its operands with a comma and a blank between
them. No name has a blank in it and no operand a comma, so the text falls apart into what it was
made of (`operandTexts_text`). Each operand is within the range of its field and is read back as itself
(`operand_operandText`), and so the text is encoded as the word again (`encode_text_of_decode?`).
-/

namespace CookingIsa

namespace CommandLine

/-! ## A text and its pieces -/

/-- The pieces of a text between one comma with a blank behind it and the next. -/
def pieces : List Char → List (List Char)
  | [] => [[]]
  | ',' :: ' ' :: cs => [] :: pieces cs
  | c :: cs => (pieces cs).modifyHead (c :: ·)

/-- The text before the first blank, or all of it if there is none. -/
def mnemonicOf (text : String) : String := String.ofList (text.toList.takeWhile fun c => c ≠ ' ')

/-- The pieces of what is behind the first blank. -/
def operandTexts (text : String) : List String :=
  match text.toList.dropWhile fun c => c ≠ ' ' with
  | [] => []
  | _ :: rest => (pieces rest).map String.ofList

theorem pieces_cons {c : Char} (hc : c ≠ ',') (cs : List Char) :
    pieces (c :: cs) = (pieces cs).modifyHead (c :: ·) := by
  rw [pieces]
  rintro rest rfl
  exact fun _ => hc rfl

theorem pieces_of_not_mem : ∀ {x : List Char}, ',' ∉ x → pieces x = [x]
  | [], _ => rfl
  | c :: x, h => by
    rw [List.mem_cons, not_or] at h
    rw [pieces_cons (Ne.symm h.1), pieces_of_not_mem h.2]
    rfl

theorem pieces_append_comma : ∀ {x : List Char}, ',' ∉ x → ∀ cs : List Char,
    pieces (x ++ ',' :: ' ' :: cs) = x :: pieces cs
  | [], _, _ => rfl
  | c :: x, h, cs => by
    rw [List.mem_cons, not_or] at h
    rw [List.cons_append, pieces_cons (Ne.symm h.1), pieces_append_comma h.2 cs]
    rfl

theorem pieces_intercalate : ∀ {xs : List (List Char)}, xs ≠ [] → (∀ x ∈ xs, ',' ∉ x) →
    pieces ([',', ' '].intercalate xs) = xs
  | [], hne, _ => absurd rfl hne
  | [x], _, h => by
    rw [List.intercalate_singleton]
    exact pieces_of_not_mem (h x List.mem_cons_self)
  | x :: y :: xs, _, h => by
    have hrest : ∀ z ∈ y :: xs, ',' ∉ z := fun z hz => h z (List.mem_cons_of_mem x hz)
    have ih := pieces_intercalate (List.cons_ne_nil y xs) hrest
    rw [List.intercalate_cons_cons, List.append_assoc, List.cons_append, List.singleton_append,
      pieces_append_comma (h x List.mem_cons_self), ih]

section Statement

variable {head : String} (hhead : ∀ c ∈ head.toList, c ≠ ' ')
include hhead

theorem mnemonicOf_eq_self : mnemonicOf head = head := by
  rw [mnemonicOf, List.takeWhile_eq_self_iff.2 (by simpa using hhead), String.ofList_toList]

theorem operandTexts_eq_nil : operandTexts head = [] := by
  rw [operandTexts, List.dropWhile_eq_nil_iff.2 (by simpa using hhead)]

theorem mnemonicOf_append (rest : String) : mnemonicOf (head ++ " " ++ rest) = head := by
  rw [mnemonicOf, String.append_assoc, String.toList_append,
    List.takeWhile_append_of_pos (by simpa using hhead), String.toList_append]
  simp

theorem operandTexts_append {shown : List String} (hne : shown ≠ [])
    (hshown : ∀ x ∈ shown, ',' ∉ x.toList) :
    operandTexts (head ++ " " ++ String.intercalate ", " shown) = shown := by
  have hpieces : pieces ([',', ' '].intercalate (shown.map String.toList)) =
      shown.map String.toList := pieces_intercalate (by simpa using hne) (by simpa using hshown)
  rw [operandTexts, String.append_assoc, String.toList_append,
    List.dropWhile_append_of_pos (by simpa using hhead), String.toList_append]
  simp [String.toList_intercalate, hpieces]

end Statement

end CommandLine

open CommandLine

/-! ## The text of a decoded word -/

theorem Instruction.ne_blank_of_mem_name (i : Instruction) : ∀ c ∈ i.name.toList, c ≠ ' ' := by
  have hname : Text.firstWord? i.usage = some i.name := (Option.some_get i.named).symm
  rcases hword : (i.usage.toList.dropWhile Text.isBlank).takeWhile (fun c => !Text.isBlank c)
    with _ | ⟨first, rest⟩
  · simp [Text.firstWord?, hword] at hname
  · simp only [Text.firstWord?, hword, Option.some.injEq] at hname
    rw [← hname, String.toList_ofList, ← hword]
    rintro c hc rfl
    simpa [Text.isBlank, Text.blankRuns] using List.mem_takeWhile_imp hc

namespace Decoding

variable {l : Layout} {j : Nat} {v : Int}

theorem operand_operandText (h : l.Admits j v) : operand (operandText l j v) = .ok v := by
  unfold Layout.Admits at h
  unfold operandText
  by_cases himm : l.IsImmediate j
  · rw [if_pos himm] at h
    rw [if_pos (show l = .registerImmediate ∧ j = 2 from himm)]
    exact operand_toString (by omega) (by omega)
  · rw [if_neg himm] at h
    rw [if_neg (show ¬ (l = .registerImmediate ∧ j = 2) from himm)]
    obtain ⟨n, rfl⟩ := Int.eq_ofNat_of_zero_le h.1
    exact operand_name n (by omega)

theorem comma_not_mem_operandText : ',' ∉ (operandText l j v).toList := by
  have hdigits : ∀ n, ',' ∉ Nat.toDigits 10 n := Text.not_mem_toDigits (by decide)
  unfold operandText
  split_ifs
  · cases v with
    | ofNat n => simpa only [Text.toList_toString_ofNat] using hdigits n
    | negSucc n =>
      rw [Text.toList_toString_negSucc, List.mem_cons, not_or]
      exact ⟨by decide, hdigits (n + 1)⟩
  · have hnames : ∀ name ∈ "?" :: Register.names, ',' ∉ ("$" ++ name).toList := by decide +kernel
    refine hnames _ ?_
    rw [Register.name, List.getD_eq_getElem?_getD]
    rcases hname : Register.names[v.toNat]? with _ | name
    · exact List.mem_cons_self
    · exact List.mem_cons_of_mem _ (List.mem_of_getElem? hname)

variable (d : Decoding)

def shown : List String := d.operands.toList.mapIdx (operandText d.instruction.layout)

theorem text_eq : d.text = if d.shown = [] then d.instruction.name
    else d.instruction.name ++ " " ++ String.intercalate ", " d.shown := by
  unfold text shown
  rcases d.operands.toList.mapIdx (operandText d.instruction.layout) with _ | ⟨x, xs⟩
  · rw [if_pos rfl]
  · rw [if_neg (List.cons_ne_nil x xs)]

theorem mnemonicOf_text : mnemonicOf d.text = d.instruction.name := by
  rw [text_eq]
  split_ifs
  · exact mnemonicOf_eq_self d.instruction.ne_blank_of_mem_name
  · exact mnemonicOf_append d.instruction.ne_blank_of_mem_name _

theorem operandTexts_text : operandTexts d.text = d.shown := by
  rw [text_eq]
  split_ifs with hshown
  · rw [hshown]
    exact operandTexts_eq_nil d.instruction.ne_blank_of_mem_name
  · refine operandTexts_append d.instruction.ne_blank_of_mem_name hshown fun x hx => ?_
    obtain ⟨j, hj, rfl⟩ := List.mem_mapIdx.1 hx
    exact comma_not_mem_operandText

end Decoding

/-! ## Encoding the text -/

namespace InstructionSet

variable {s : InstructionSet} {w : Word} {d : Decoding}

theorem find?_of_decode? (hd : s.decode? w = some d) :
    s.find? (mnemonicOf d.text) = some d.instruction := by
  obtain ⟨hmem, -, -, -⟩ := (decode?_eq_some_iff s).1 hd
  exact (find?_eq_some_iff s).2 ⟨hmem, d.mnemonicOf_text.symm⟩

theorem readOperands_of_decode? (hd : s.decode? w = some d) :
    readOperands (operandTexts d.text) = .ok d.operands.toList := by
  obtain ⟨-, -, -, hops⟩ := (decode?_eq_some_iff s).1 hd
  refine mapM_of_map_eq_ok _ (List.ext_getElem? fun j => ?_)
  simp only [d.operandTexts_text, Decoding.shown, List.getElem?_map, List.getElem?_mapIdx]
  rcases hv : d.operands.toList[j]? with _ | v
  · rfl
  · have hadmits : d.instruction.layout.Admits j v :=
      d.instruction.admits_operandsOf w (by rw [← hops]; exact hv)
    simp [Decoding.operand_operandText hadmits]

theorem encode_operands_of_decode? (hd : s.decode? w = some d) :
    d.instruction.encode d.operands.toList = .ok w := by
  obtain ⟨-, hw, -, hops⟩ := (decode?_eq_some_iff s).1 hd
  rw [hops]
  exact d.instruction.encode_operandsOf hw

theorem eq_of_text_eq {w' : Word} {d' : Decoding} (hd : s.decode? w = some d)
    (hd' : s.decode? w' = some d') (htext : d'.text = d.text) : w' = w := by
  have hfind := find?_of_decode? hd'
  have hread := readOperands_of_decode? hd'
  have hencode := encode_operands_of_decode? hd'
  rw [htext, find?_of_decode? hd, Option.some.injEq] at hfind
  rw [htext, readOperands_of_decode? hd, Except.ok.injEq] at hread
  rw [← hfind, ← hread, encode_operands_of_decode? hd, Except.ok.injEq] at hencode
  exact hencode.symm

section Chef

variable (hchef : ChefAssembly.instructionSet = .ok s)
include hchef

theorem chefAssembly_eq_ok : chefAssembly = .ok s := by
  rw [chefAssembly, hchef]
  rfl

theorem runDecode_of_decode? (hd : s.decode? w = some d) {text : String}
    (htext : word text = .ok w) :
    runDecode [text] = .ok (.success (lines [w.text ++ "  " ++ d.text, fieldsText w])) := by
  have hwords : readWords [text] = .ok [w] := by
    rw [readWords, List.mapM_cons, htext]
    rfl
  have hreport : wordReport s w = lines [w.text ++ "  " ++ d.text, fieldsText w] := by
    rw [wordReport, hd]
  obtain ⟨i, hi, -⟩ := Option.map_eq_some_iff.1 hd
  rw [runDecode, chefAssembly_eq_ok hchef]
  simp only [bind, Except.bind, hwords, ← hreport]
  simp [hi, pure, Except.pure, Output.success]

theorem runEncode_of_decode? (hd : s.decode? w = some d) :
    runEncode (mnemonicOf d.text) (operandTexts d.text) = .ok (.success (line w.text)) := by
  rw [runEncode, chefAssembly_eq_ok hchef]
  simp only [bind, Except.bind, find?_of_decode? hd, readOperands_of_decode? hd,
    encode_operands_of_decode? hd]
  rfl

end Chef

/-- The text of a decoded word names the entry that it was decoded as and its operands, which are
encoded as the word again; so no other word has the text. The word itself is read back as it is
printed. In Chef Assembly, what `decode` prints for a word is turned by `encode` into that word. -/
theorem encode_text_of_decode? (hd : s.decode? w = some d) :
    (s.find? (mnemonicOf d.text) = some d.instruction ∧
      readOperands (operandTexts d.text) = .ok d.operands.toList ∧
      d.instruction.encode d.operands.toList = .ok w) ∧
    word w.text = .ok w ∧
    (∀ w' d', s.decode? w' = some d' → d'.text = d.text → w' = w) ∧
    (ChefAssembly.instructionSet = .ok s → ∀ text content input, word text = .ok w →
      (Command.decode [text]).run content input =
        .ok (.success (lines [w.text ++ "  " ++ d.text, fieldsText w])) ∧
      (Command.encode (mnemonicOf d.text) (operandTexts d.text)).run content input =
        .ok (.success (line w.text))) :=
  ⟨⟨find?_of_decode? hd, readOperands_of_decode? hd, encode_operands_of_decode? hd⟩, word_text w,
    fun _ _ hd' htext => eq_of_text_eq hd hd' htext,
    fun hchef _ _ _ htext => ⟨runDecode_of_decode? hchef hd htext, runEncode_of_decode? hchef hd⟩⟩

/-- A word with a negative immediate, from the hexadecimal word to its text and back. -/
theorem encode_text_of_decode?_addImmediate : ∃ (s : InstructionSet) (d : Decoding),
    ChefAssembly.instructionSet = .ok s ∧ s.decode? 0x2128fffb#32 = some d ∧
      d.text = "season $t0, $t1, -5" ∧ d.instruction.encode d.operands.toList = .ok 0x2128fffb#32 ∧
      (Command.decode ["0x2128fffb"]).run none [] = .ok (.success
        (lines ["0x2128fffb  season $t0, $t1, -5", fieldsText 0x2128fffb#32])) ∧
      (Command.encode "season" ["$t0", "$t1", "-5"]).run none [] =
        .ok (.success "0x2128fffb\n") := by
  have htext : (ChefAssembly.instructionSet.toOption.bind fun s =>
      (s.decode? 0x2128fffb#32).map Decoding.text) = some "season $t0, $t1, -5" := by
    decide +kernel
  obtain ⟨s, hs⟩ := ChefAssembly.instructionSet_eq_ok
  rw [hs] at htext
  obtain ⟨d, hd, hdtext⟩ := Option.map_eq_some_iff.1 htext
  obtain ⟨⟨-, -, hencode⟩, -, -, hchef⟩ := encode_text_of_decode? hd
  have hrun := hchef hs "0x2128fffb" none [] (by decide +kernel)
  have hmnemonic : mnemonicOf "season $t0, $t1, -5" = "season" := by decide +kernel
  have hoperands : operandTexts "season $t0, $t1, -5" = ["$t0", "$t1", "-5"] := by decide +kernel
  rw [hdtext, hmnemonic, hoperands] at hrun
  exact ⟨s, d, hs, hd, hdtext, hencode, hrun⟩

end InstructionSet

end CookingIsa
