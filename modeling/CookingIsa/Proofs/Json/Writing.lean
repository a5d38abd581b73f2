import Mathlib
import CookingIsa.Json.Value
import CookingIsa.Proofs.Json.Tree
import CookingIsa.Proofs.Numeral

/-!
# What is written is JSON

Every value is written as a text of the grammar that the reader is proved against, and it is the
text of the value's own tree (`Value.tree`): on many lines (`isText_pretty`) as well as on one
(`isText_compact`).
-/

namespace CookingIsa.Json

variable {cs cs' l closing : List Char} {t close : Token} {ts ts' : List Token} {c : Char}

/-! ## Spelling tokens one after another -/

theorem Spells.behind_spaces {space : List Char} (hspace : ∀ c ∈ space, isSpace c = true) (h : Spells ts cs) :
    Spells ts (space ++ cs) := by
  induction space with
  | nil => exact h
  | cons c space ih =>
    obtain ⟨hc, hrest⟩ := List.forall_mem_cons.1 hspace
    exact (ih hrest).behind_space hc

theorem Spells.append (h : Spells ts cs) (h' : Spells ts' cs') :
    Spells (ts ++ ts') (cs ++ cs') := by
  induction h with
  | nil hspace => exact h'.behind_spaces hspace
  | cons hspace ht _ ih =>
    rw [List.append_assoc, List.append_assoc]
    exact .cons hspace ht ih

theorem spells_cons (ht : t.Spelling l) (h : Spells ts cs) : Spells (t :: ts) (l ++ cs) :=
  Spells.cons (List.forall_mem_nil _) ht h

theorem spells_singleton (ht : t.Spelling l) : Spells [t] l := by
  rw [← List.append_nil l]
  exact spells_cons ht (.nil (List.forall_mem_nil _))

theorem spells_mark (ht : t.mark? = some c) (h : Spells ts cs) : Spells (t :: ts) (c :: cs) :=
  spells_cons (.mark ht) h

/-- Parts with a comma and any white space between them, and what closes them. -/
theorem spells_parts (space : List Char) (hspace : ∀ c ∈ space, isSpace c = true)
    (hclosing : Spells [close] closing) :
    ∀ {parts : List (List Token)} {texts : List (List Char)} {part : List Token} {l : List Char},
      Spells part l → List.Forall₂ Spells parts texts →
        Spells (part ++ moreParts close parts) ((',' :: space).intercalate (l :: texts) ++ closing)
  | [], [], part, l, hpart, _ => by
    rw [List.intercalate_singleton]
    exact hpart.append hclosing
  | next :: parts, text :: texts, part, l, hpart, .cons hnext hparts => by
    have ih := spells_parts space hspace hclosing hnext hparts
    rw [List.intercalate_cons_cons, List.append_assoc, List.append_assoc, List.cons_append]
    exact hpart.append (spells_mark rfl (ih.behind_spaces hspace))

/-! ## Texts and numbers -/

theorem spelling_escapeChar (c : Char) : Piece.Spelling (.char c) (escapeChar c) := by
  unfold escapeChar
  split_ifs with hquote hbackslash _ _ _ _ _ hcontrol
  · rw [hquote]
    exact .escape rfl
  · rw [hbackslash]
    exact .escape rfl
  · subst c
    exact .escape rfl
  · subst c
    exact .escape rfl
  · subst c
    exact .escape rfl
  · subst c
    exact .escape rfl
  · subst c
    exact .escape rfl
  · have hsmall : c.toNat < 32 := hcontrol
    have hpiece : Piece.ofUnit c.toNat = .char c := by
      rw [Piece.ofUnit, if_neg (by omega), if_neg (by omega), Char.ofNat_toNat]
    rw [← hpiece]
    exact .unit (Word.length_hexDigits 4 _) (Text.spells_hexDigits (by decide) (by omega))
  · exact .plain (not_lt.1 hcontrol) hquote hbackslash

theorem spellPieces_escape : ∀ cs : List Char, SpellPieces (cs.map .char) (cs.flatMap escapeChar)
  | [] => .nil
  | c :: cs => by
    rw [List.map_cons, List.flatMap_cons]
    exact .cons (spelling_escapeChar c) (spellPieces_escape cs)

theorem spelling_quote (s : String) :
    (Token.text (s.toList.map .char) .whole).Spelling (quote s).toList := by
  rw [quote, String.toList_ofList]
  exact .text (spellPieces_escape s.toList)

/-- An integer in decimal. -/
def Numeral.ofInt : Int → Numeral
  | .ofNat n => ⟨false, Nat.toDigits 10 n, [], none⟩
  | .negSucc n => ⟨true, Nat.toDigits 10 (n + 1), [], none⟩

theorem isDigits_toDigits (n : Nat) : IsDigits (Nat.toDigits 10 n) :=
  ⟨Nat.toDigits_ne_nil, fun _ hc => Nat.isDigit_of_mem_toDigits (by decide) (by decide) hc⟩

theorem spelling_toString (n : Int) :
    (Token.number (.ofInt n) .whole).Spelling (toString n).toList := by
  have hdigits (k : Nat) (negative : Bool) :
      Numeral.Spelling ⟨negative, Nat.toDigits 10 k, [], none⟩
        ((if negative then ['-'] else []) ++ Nat.toDigits 10 k) := by
    have hspelling : Numeral.Spelling ⟨negative, Nat.toDigits 10 k, [], none⟩
        ((if negative then ['-'] else []) ++ (Nat.toDigits 10 k ++ ([] ++ []))) :=
      .mk (isDigits_toDigits k) Text.toDigits_of_head? .absent .absent
    rwa [List.append_nil, List.append_nil] at hspelling
  cases n with
  | ofNat k =>
    rw [Text.toList_toString_ofNat]
    exact .number (hdigits k false)
  | negSucc k =>
    rw [Text.toList_toString_negSucc]
    exact .number (hdigits (k + 1) true)

/-! ## Values -/

namespace Value

mutual

/-- The tree of a value. -/
def tree : Value → Tree
  | null => .literal none
  | number n => .number (.ofInt n)
  | text s => .text (s.toList.map .char)
  | array items => .array (itemTrees items)
  | object members => .object (memberTrees members)

def itemTrees : List Value → List Tree
  | [] => []
  | v :: items => v.tree :: itemTrees items

def memberTrees : List (String × Value) → List (List Piece × Tree)
  | [] => []
  | (name, v) :: members => (name.toList.map .char, v.tree) :: memberTrees members

end

end Value

/-- Each text is the tokens of one part. -/
def SpellsEach (parts : List (List Token)) (texts : List String) : Prop :=
  List.Forall₂ (fun part text => Spells part text.toList) parts texts

theorem spells_keyed (name : String) (space : List Char) (hspace : ∀ c ∈ space, isSpace c = true)
    {text : String} (h : Spells ts text.toList) :
    Spells (.text (name.toList.map .char) .whole :: .colon :: ts)
      (quote name ++ String.ofList (':' :: space) ++ text).toList := by
  rw [String.toList_append, String.toList_append, String.toList_ofList, List.append_assoc]
  exact spells_cons (spelling_quote name) (spells_mark rfl (h.behind_spaces hspace))

/-- A text of white space, as it stands in front of a line. -/
def IsMargin (indent : String) : Prop := ∀ c ∈ indent.toList, isSpace c = true

theorem IsMargin.deeper {indent : String} (h : IsMargin indent) : IsMargin (indent ++ "  ") := by
  rw [IsMargin, String.toList_append]
  exact List.forall_mem_append.2 ⟨h, by simp [isSpace]⟩

section Brackets

variable {parts : List (List Token)} {texts : List String} {bracket : Token} {left right : String}
  {a b : Char} (hbracket : bracket.mark? = some a) (hleft : left.toList = [a])
  (hclose : close.mark? = some b) (hright : right.toList = [b])
include hbracket hleft hclose hright

theorem spells_inline (h : SpellsEach parts texts) :
    Spells (bracket :: closedParts close parts) (inline left texts right).toList := by
  have hclosing : Spells [close] [b] := spells_singleton (.mark hclose)
  simp only [inline, String.toList_append, String.toList_intercalate, hleft, hright]
  cases h with
  | nil => exact spells_mark hbracket hclosing
  | cons hpart hparts =>
    refine spells_mark hbracket ?_
    exact spells_parts [] (List.forall_mem_nil _) hclosing hpart
      (List.forall₂_map_right_iff.2 hparts)

theorem spells_block {indent : String} (hindent : IsMargin indent) (h : SpellsEach parts texts) :
    Spells (bracket :: closedParts close parts) (block indent left texts right).toList := by
  have hbreak : ∀ c ∈ ['\n'], isSpace c = true := List.forall_mem_singleton.2 rfl
  have hclosing : Spells [close] ('\n' :: (indent.toList ++ [b])) :=
    ((spells_singleton (.mark hclose)).behind_spaces hindent).behind_space rfl
  cases h with
  | nil =>
    rw [block, String.toList_append, hleft, hright]
    exact spells_mark hbracket (spells_singleton (.mark hclose))
  | @cons part text parts texts hpart hparts =>
    have hline {part : List Token} {text : String} (h : Spells part text.toList) :
        Spells part (indent ++ "  " ++ text).toList := by
      rw [String.toList_append]
      exact h.behind_spaces hindent.deeper
    have hlines := spells_parts ['\n'] hbreak hclosing (hline hpart)
      (List.forall₂_map_right_iff.2 (hparts.imp fun _ _ => hline))
    have htext : (block indent left (text :: texts) right).toList = a :: '\n' ::
        ([',', '\n'].intercalate ((indent ++ "  " ++ text).toList ::
          texts.map fun text => (indent ++ "  " ++ text).toList) ++
            '\n' :: (indent.toList ++ [b])) := by
      simp only [block, String.toList_append, String.toList_intercalate, hleft, hright, List.map_map,
        List.map_cons, Function.comp_def, List.append_assoc]
      rfl
    rw [htext]
    exact spells_mark hbracket (hlines.behind_space rfl)

end Brackets

namespace Value

mutual

theorem spells_pretty : ∀ (v : Value) {indent : String}, IsMargin indent →
    Spells v.tree.tokens (v.pretty indent).toList
  | null, _, _ => spells_singleton (.literal none)
  | number n, _, _ => spells_singleton (spelling_toString n)
  | text s, _, _ => spells_singleton (spelling_quote s)
  | array items, indent, h => by
    rw [tree, Tree.tokens, pretty]
    exact spells_block rfl rfl rfl rfl h (spells_prettyItems items h.deeper)
  | object members, indent, h => by
    rw [tree, Tree.tokens, pretty]
    exact spells_block rfl rfl rfl rfl h (spells_prettyMembers members h.deeper)

theorem spells_prettyItems : ∀ (items : List Value) {indent : String}, IsMargin indent →
    SpellsEach (Tree.itemTokens (itemTrees items)) (prettyItems indent items)
  | [], _, _ => .nil
  | v :: items, _, h => .cons (spells_pretty v h) (spells_prettyItems items h)

theorem spells_prettyMembers : ∀ (members : List (String × Value)) {indent : String},
    IsMargin indent →
      SpellsEach (Tree.memberTokens (memberTrees members)) (prettyMembers indent members)
  | [], _, _ => .nil
  | (name, v) :: members, _, h =>
    .cons (spells_keyed name [' '] (List.forall_mem_singleton.2 rfl) (spells_pretty v h))
      (spells_prettyMembers members h)

end

mutual

theorem spells_compact : ∀ v : Value, Spells v.tree.tokens v.compact.toList
  | null => spells_singleton (.literal none)
  | number n => spells_singleton (spelling_toString n)
  | text s => spells_singleton (spelling_quote s)
  | array items => by
    rw [tree, Tree.tokens, compact]
    exact spells_inline rfl rfl rfl rfl (spells_compactItems items)
  | object members => by
    rw [tree, Tree.tokens, compact]
    exact spells_inline rfl rfl rfl rfl (spells_compactMembers members)

theorem spells_compactItems : ∀ items : List Value,
    SpellsEach (Tree.itemTokens (itemTrees items)) (compactItems items)
  | [] => .nil
  | v :: items => .cons (spells_compact v) (spells_compactItems items)

theorem spells_compactMembers : ∀ members : List (String × Value),
    SpellsEach (Tree.memberTokens (memberTrees members)) (compactMembers members)
  | [] => .nil
  | (name, v) :: members =>
    .cons (spells_keyed name [] (List.forall_mem_nil _) (spells_compact v))
      (spells_compactMembers members)

end

/-- A value on one line is a text of its tree. -/
theorem isText_compact (v : Value) : v.tree.IsText v.compact := spells_compact v

end Value

end CookingIsa.Json
