import Mathlib
import CookingIsa.Machine.StreamConsole

/-!
# The lines of a stream console

The bytes of a text hold the byte of a line feed only where the text has one, so cutting the bytes
cuts the text (`cutLine_append`, `cutLine_of_notMem`). One read takes one line (`takes_stream`), and
there are as many to read as the text has (`getElem?_readLines_ofInput`). More may be taken off a
line than its terminator: the carriage returns in front of it, or at the end of a line without one,
are lost as well. A line is given as it was written, and as a console gives it whose lines are given
beforehand, exactly if there are none (`readLines_exactly`).
-/

namespace CookingIsa

namespace Text

/-- The lines of a text, each with its line feed, which the last need not have. -/
def lines : List Char → List (List Char)
  | [] => []
  | c :: cs =>
    if c = '\n' then [c] :: lines cs
    else match lines cs with
      | [] => [[c]]
      | line :: rest => (c :: line) :: rest

/-- A line without its terminator: a carriage return and a line feed, or a line feed alone. -/
def withoutTerminator (line : List Char) : List Char :=
  match line.reverse with
  | '\n' :: '\r' :: cs => cs.reverse
  | '\n' :: cs => cs.reverse
  | _ => line

def toBytes (cs : List Char) : List UInt8 := cs.flatMap String.utf8EncodeChar

variable {cs front line : List Char} {c : Char}

theorem lines_append : ∀ {front : List Char}, '\n' ∉ front →
    lines (front ++ '\n' :: cs) = (front ++ ['\n']) :: lines cs
  | [], _ => rfl
  | c :: front, h => by
    obtain ⟨hc, hfront⟩ := not_or.1 (mt List.mem_cons.2 h)
    rw [List.cons_append, lines, if_neg (Ne.symm hc), lines_append hfront]
    rfl

theorem lines_of_notMem : ∀ {cs : List Char}, cs ≠ [] → '\n' ∉ cs → lines cs = [cs]
  | [c], _, h => if_neg (Ne.symm (not_or.1 (mt List.mem_cons.2 h)).1)
  | c :: d :: cs, _, h => by
    obtain ⟨hc, hcs⟩ := not_or.1 (mt List.mem_cons.2 h)
    rw [lines, if_neg (Ne.symm hc), lines_of_notMem (List.cons_ne_nil _ _) hcs]

/-- A text has no characters, or one line without a line feed, or more behind its first line. -/
theorem lines_induction {p : List Char → Prop} (empty : p [])
    (last : ∀ cs, cs ≠ [] → '\n' ∉ cs → p cs)
    (more : ∀ front cs, '\n' ∉ front → p cs → p (front ++ '\n' :: cs)) (cs : List Char) : p cs := by
  induction hn : cs.length using Nat.strong_induction_on generalizing cs with
  | _ n ih =>
    by_cases hmem : '\n' ∈ cs
    · obtain ⟨front, rest, rfl, hfront⟩ := List.eq_append_cons_of_mem hmem
      rw [List.length_append, List.length_cons] at hn
      exact more front rest hfront (ih rest.length (by omega) rest rfl)
    · rcases cs with _ | ⟨c, cs⟩
      · exact empty
      · exact last _ (List.cons_ne_nil _ _) hmem

theorem exists_of_mem_lines : line ∈ lines cs →
    ∃ front, '\n' ∉ front ∧ (line = front ++ ['\n'] ∨ line = front) := by
  induction cs using lines_induction with
  | empty => exact fun h => absurd h List.not_mem_nil
  | last cs hne hcs =>
    rw [lines_of_notMem hne hcs, List.mem_singleton]
    rintro rfl
    exact ⟨line, hcs, .inr rfl⟩
  | more front cs hfront ih =>
    rw [lines_append hfront, List.mem_cons]
    rintro (rfl | h)
    · exact ⟨front, hfront, .inl rfl⟩
    · exact ih h

theorem notMem_withoutTerminator (h : line ∈ lines cs) : '\n' ∉ withoutTerminator line := by
  obtain ⟨front, hfront, rfl | rfl⟩ := exists_of_mem_lines h
  · rw [← List.mem_reverse] at hfront
    unfold withoutTerminator
    rw [List.reverse_append, List.reverse_singleton, List.singleton_append]
    split
    · rename_i cs hcs
      rw [List.tail_eq_of_cons_eq hcs, List.mem_cons, not_or] at hfront
      exact mt List.mem_reverse.1 hfront.2
    · rename_i cs _ hcs
      rw [List.tail_eq_of_cons_eq hcs] at hfront
      exact mt List.mem_reverse.1 hfront
    · rename_i hother
      exact absurd rfl (hother _)
  · have hrest : ∀ cs, line.reverse ≠ '\n' :: cs := fun cs hcs =>
      hfront (List.mem_reverse.1 (hcs ▸ List.mem_cons_self))
    unfold withoutTerminator
    split
    · rename_i hcs
      exact absurd hcs (hrest _)
    · rename_i hcs
      exact absurd hcs (hrest _)
    · exact hfront

/-! ## Bytes -/

theorem ne_lineFeed_of_mem {b : UInt8} (hc : c ≠ '\n') (hb : b ∈ String.utf8EncodeChar c) :
    b ≠ 10 := by
  have hvalue : c.val.toNat ≠ 10 := fun h => hc (Char.ext (UInt32.toNat_inj.1 h))
  obtain ⟨k, hsmall, hk, rfl⟩ : ∃ k, k < 256 ∧ k ≠ 10 ∧ b = UInt8.ofNat k := by
    unfold String.utf8EncodeChar at hb
    dsimp only at hb
    split_ifs at hb <;> simp only [List.mem_cons, List.not_mem_nil, or_false] at hb
    · exact ⟨_, by omega, hvalue, hb⟩
    · rcases hb with hb | hb <;> exact ⟨_, by omega, by omega, hb⟩
    · rcases hb with hb | hb | hb <;> exact ⟨_, by omega, by omega, hb⟩
    · rcases hb with hb | hb | hb | hb <;> exact ⟨_, by omega, by omega, hb⟩
  intro h
  have hnat := congrArg UInt8.toNat h
  rw [UInt8.toNat_ofNat_of_lt' hsmall] at hnat
  exact hk hnat

theorem lineFeed_notMem_toBytes (h : '\n' ∉ cs) : 10 ∉ toBytes cs := by
  intro hmem
  obtain ⟨c, hc, hb⟩ := List.mem_flatMap.1 hmem
  exact ne_lineFeed_of_mem (fun heq => h (heq ▸ hc)) hb rfl

theorem toBytes_append (cs cs' : List Char) : toBytes (cs ++ cs') = toBytes cs ++ toBytes cs' :=
  List.flatMap_append

theorem toBytes_ne_nil (h : cs ≠ []) : toBytes cs ≠ [] := by
  obtain ⟨c, cs, rfl⟩ := List.exists_cons_of_ne_nil h
  exact fun hnil => String.utf8EncodeChar_ne_nil (List.append_eq_nil_iff.1 hnil).1

theorem toList_data_toUTF8 (text : String) : text.toUTF8.data.toList = toBytes text.toList := by
  have hbytes : text.toUTF8 = (toBytes text.toList).toByteArray := String.utf8Encode_toList.symm
  rw [hbytes, List.data_toByteArray]

theorem fromUTF8?_toBytes (cs : List Char) :
    String.fromUTF8? ⟨(toBytes cs).toArray⟩ = some (String.ofList cs) := by
  have hbytes : (⟨(toBytes cs).toArray⟩ : ByteArray) = cs.utf8Encode :=
    ByteArray.ext List.data_toByteArray.symm
  rw [hbytes, String.fromUTF8?, dif_pos ⟨cs, rfl⟩]
  rfl

end Text

namespace StreamConsole

open Text

variable {cs front line : List Char} {bytes rest : List UInt8} {prompt output : String}

theorem cutLine_append (h : 10 ∉ bytes) :
    cutLine (bytes ++ 10 :: rest) = (bytes ++ [10], rest) := by
  have hfront : ∀ b ∈ bytes, decide (b ≠ 10) = true := fun b hb =>
    decide_eq_true fun heq => h (heq ▸ hb)
  simp only [cutLine, List.span_eq_takeWhile_dropWhile, List.takeWhile_append_of_pos hfront,
    List.dropWhile_append_of_pos hfront]
  simp

theorem cutLine_of_notMem (h : 10 ∉ bytes) : cutLine bytes = (bytes, []) := by
  have hall : ∀ b ∈ bytes, decide (b ≠ 10) = true := fun b hb =>
    decide_eq_true fun heq => h (heq ▸ hb)
  simp only [cutLine, List.span_eq_takeWhile_dropWhile, List.takeWhile_eq_self_iff.2 hall,
    List.dropWhile_eq_nil_iff.2 hall]
  simp

theorem readLine_of_cutLine (hline : line ≠ []) (hcut : cutLine bytes = (toBytes line, rest)) :
    readLine ⟨bytes, output⟩ prompt =
      (.ok (trimLineEnds (String.ofList line)), ⟨rest, output ++ prompt⟩) := by
  simp only [readLine, hcut, fromUTF8?_toBytes, List.isEmpty_iff, toBytes_ne_nil hline, if_false]

theorem trimLineEnds_eq (line : List Char) :
    trimLineEnds (String.ofList line) =
      String.ofList ((withoutTerminator line).rdropWhile fun c => c = '\r' ∨ c = '\n') := by
  unfold trimLineEnds withoutTerminator List.rdropWhile
  rw [String.toList_ofList]
  split
  · rename_i cs hcs
    rw [hcs, List.reverse_reverse]
    rfl
  · rename_i cs _ hcs
    rw [hcs, List.reverse_reverse]
    rfl
  · rfl

/-- Trimming takes off more than the terminator exactly if a carriage return is left behind it. -/
theorem trimLineEnds_eq_iff (h : '\n' ∉ withoutTerminator line) :
    trimLineEnds (String.ofList line) = String.ofList (withoutTerminator line) ↔
      (withoutTerminator line).getLast? ≠ some '\r' := by
  rw [trimLineEnds_eq, String.ofList_inj, List.rdropWhile_eq_self_iff]
  constructor
  · intro hkeep hlast
    obtain ⟨hne, hr⟩ := List.mem_getLast?_eq_getLast hlast
    exact hkeep hne (decide_eq_true (.inl hr.symm))
  · intro hlast hne htrim
    rcases of_decide_eq_true htrim with hr | hn
    · exact hlast (hr ▸ List.getLast?_eq_some_getLast hne)
    · exact h (hn ▸ List.getLast_mem hne)

end StreamConsole

/-! ## Reading line after line -/

/-- The answers of a console to prompts, one after the other. -/
def readLines {κ : Type} [Console κ] : κ → List String → List (Except ConsoleError String)
  | _, [] => []
  | c, prompt :: prompts =>
    let (answer, next) := Console.readLine c prompt
    answer :: readLines next prompts

/-- The answer at `k`, if the answers are these lines and then an error. -/
def answerAt (error : ConsoleError) (lines : List String) (k : Nat) : Except ConsoleError String :=
  match lines[k]? with
  | some line => .ok line
  | none => .error error

/-- What holds of a console that has these lines left, if each prompt takes one. -/
def Takes {κ : Type} [Console κ] (error : ConsoleError) (p : κ → List String → Prop) : Prop :=
  ∀ c lines prompt, p c lines →
    (Console.readLine c prompt).1 = answerAt error lines 0 ∧
      p (Console.readLine c prompt).2 lines.tail

theorem answerAt_succ (error : ConsoleError) (lines : List String) (k : Nat) :
    answerAt error lines (k + 1) = answerAt error lines.tail k := by
  rw [answerAt, answerAt, List.getElem?_tail]

theorem Takes.getElem?_readLines {κ : Type} [Console κ] {error : ConsoleError}
    {p : κ → List String → Prop} (htakes : Takes error p) :
    ∀ {prompts : List String} {c : κ} {lines : List String} {k : Nat}, p c lines →
      k < prompts.length → (readLines c prompts)[k]? = some (answerAt error lines k)
  | [], _, _, k, _, hk => absurd hk (Nat.not_lt_zero k)
  | prompt :: _, c, lines, 0, hc, _ => congrArg some (htakes c lines prompt hc).1
  | prompt :: prompts, c, lines, k + 1, hc, hk => by
    rw [answerAt_succ]
    exact htakes.getElem?_readLines (htakes c lines prompt hc).2 (Nat.lt_of_succ_lt_succ hk)

theorem takes_scripted :
    Takes (κ := ScriptedConsole) .exhausted fun c lines => c.input = lines := by
  rintro ⟨input, prompts, output⟩ lines prompt rfl
  cases input <;> exact ⟨rfl, rfl⟩

open Text StreamConsole

theorem takes_stream : Takes (κ := StreamConsole) .endOfStream fun c ls =>
    ∃ cs, c.input = toBytes cs ∧ ls = (lines cs).map fun l => trimLineEnds (String.ofList l) := by
  rintro ⟨_, output⟩ _ prompt ⟨cs, rfl, rfl⟩
  induction cs using lines_induction with
  | empty => exact ⟨rfl, [], rfl, rfl⟩
  | last cs hne hcs =>
    have hcut : cutLine (toBytes cs) = (toBytes cs, toBytes []) :=
      cutLine_of_notMem (lineFeed_notMem_toBytes hcs)
    rw [lines_of_notMem hne hcs]
    simp only [Console.readLine, readLine_of_cutLine hne hcut]
    exact ⟨rfl, [], rfl, rfl⟩
  | more front cs hfront _ =>
    have hcut : cutLine (toBytes (front ++ '\n' :: cs)) =
        (toBytes (front ++ ['\n']), toBytes cs) := by
      rw [toBytes_append, toBytes_append]
      exact cutLine_append (lineFeed_notMem_toBytes hfront)
    have hne : front ++ ['\n'] ≠ [] := List.append_ne_nil_of_right_ne_nil _ (List.cons_ne_nil _ _)
    rw [lines_append hfront]
    simp only [Console.readLine, readLine_of_cutLine hne hcut]
    exact ⟨rfl, cs, rfl, rfl⟩

theorem getElem?_readLines_ofInput (text : String) {prompts : List String} {k : Nat}
    (hk : k < prompts.length) :
    (readLines (StreamConsole.ofInput text.toUTF8.data.toList) prompts)[k]? =
      some (answerAt .endOfStream
        ((lines text.toList).map fun l => trimLineEnds (String.ofList l)) k) :=
  takes_stream.getElem?_readLines ⟨text.toList, toList_data_toUTF8 text, rfl⟩ hk

/-- The answers to any prompts are the lines of the text, trimmed, and then the end of the stream.
An answer is the line without its terminator, which a console gives whose lines are given
beforehand, exactly if that does not end with a carriage return. -/
theorem readLines_exactly (text : String) (prompts : List String) (k : Nat)
    (hk : k < prompts.length) :
    (readLines (StreamConsole.ofInput text.toUTF8.data.toList) prompts)[k]? =
        some (answerAt .endOfStream
          ((lines text.toList).map fun l => trimLineEnds (String.ofList l)) k) ∧
      (readLines (ScriptedConsole.ofInput
          ((lines text.toList).map fun l => String.ofList (withoutTerminator l))) prompts)[k]? =
        some (answerAt .exhausted
          ((lines text.toList).map fun l => String.ofList (withoutTerminator l)) k) ∧
      ∀ line, (lines text.toList)[k]? = some line →
        ((readLines (StreamConsole.ofInput text.toUTF8.data.toList) prompts)[k]? =
            some (.ok (String.ofList (withoutTerminator line))) ↔
          (withoutTerminator line).getLast? ≠ some '\r') := by
  have hstream := getElem?_readLines_ofInput text hk
  refine ⟨hstream, takes_scripted.getElem?_readLines rfl hk, fun line hline => ?_⟩
  rw [hstream, answerAt, List.getElem?_map, hline, Option.map_some, Option.some.injEq,
    Except.ok.injEq]
  exact trimLineEnds_eq_iff (notMem_withoutTerminator (List.mem_of_getElem? hline))

/-- Two lines, the first with both characters of a terminator and the last with none. -/
theorem readLines_exactly_unterminated :
    1 < ["Grains: ", "Fruit: "].length ∧
      (readLines (StreamConsole.ofInput "rice\r\napple".toUTF8.data.toList)
        ["Grains: ", "Fruit: "])[1]? = some (.ok "apple") ∧
      (readLines (ScriptedConsole.ofInput ["rice", "apple"])
        ["Grains: ", "Fruit: "])[1]? = some (.ok "apple") ∧
      (lines "rice\r\napple".toList)[1]? = some "apple".toList ∧
      (withoutTerminator "apple".toList).getLast? ≠ some '\r' := by
  have hk : 1 < ["Grains: ", "Fruit: "].length := by decide
  have hline : (lines "rice\r\napple".toList)[1]? = some "apple".toList := by decide
  obtain ⟨hstream, hscripted, hiff⟩ :=
    readLines_exactly "rice\r\napple" ["Grains: ", "Fruit: "] 1 hk
  exact ⟨hk, hstream, hscripted, hline, (hiff _ hline).1 hstream⟩

/-- Of two carriage returns in front of a line feed only one belongs to the terminator, and both are
lost. -/
theorem not_readLines_withoutTerminator :
    ¬ ∀ (text : String) (prompts : List String) (k : Nat) (line : List Char), k < prompts.length →
      (lines text.toList)[k]? = some line →
      (readLines (StreamConsole.ofInput text.toUTF8.data.toList) prompts)[k]? =
        some (.ok (String.ofList (withoutTerminator line))) := by
  intro hall
  have hread := hall "beef\r\r\n" ["Protein: "] 0 "beef\r\r\n".toList (by decide) (by decide)
  rw [getElem?_readLines_ofInput _ (by decide)] at hread
  exact absurd hread (by decide)

end CookingIsa
