import Mathlib
import CookingIsa.Proofs.Json.Lexeme

/-!
# Values and their texts

A JSON value is a tree, and its text is its tokens in their order with any white space around each
(`Tree.IsText`). Two numbers never follow each other in it, so the scanner cuts the text into these
tokens again, and it gives the tokens of a value for no other text (`Tree.tokensOf_eq_iff`).
-/

namespace CookingIsa.Json

/-- A value as it is written, but for its white space. -/
inductive Tree where
  | literal (value : Option Bool)
  | number (n : Numeral)
  | text (pieces : List Piece)
  | array (items : List Tree)
  | object (members : List (List Piece × Tree))

/-- Parts behind a comma each, and the bracket that closes them. -/
def moreParts (close : Token) : List (List Token) → List Token
  | [] => [close]
  | part :: parts => .comma :: (part ++ moreParts close parts)

/-- Parts with commas between them, and the bracket that closes them. -/
def closedParts (close : Token) : List (List Token) → List Token
  | [] => [close]
  | part :: parts => part ++ moreParts close parts

namespace Tree

mutual

def tokens : Tree → List Token
  | literal value => [.literal value .whole]
  | number n => [.number n .whole]
  | text pieces => [.text pieces .whole]
  | array items => .openArray :: closedParts .closeArray (itemTokens items)
  | object members => .openObject :: closedParts .closeObject (memberTokens members)

/-- The tokens of each item of an array. -/
def itemTokens : List Tree → List (List Token)
  | [] => []
  | t :: items => t.tokens :: itemTokens items

/-- The tokens of each member of an object. -/
def memberTokens : List (List Piece × Tree) → List (List Token)
  | [] => []
  | (key, t) :: members => (.text key .whole :: .colon :: t.tokens) :: memberTokens members

end

/-- The tokens of a member of an object. -/
def keyed (m : List Piece × Tree) : List Token := .text m.1 .whole :: .colon :: m.2.tokens

theorem itemTokens_eq : ∀ items : List Tree, itemTokens items = items.map tokens
  | [] => rfl
  | t :: items => congrArg (t.tokens :: ·) (itemTokens_eq items)

theorem memberTokens_eq : ∀ members : List (List Piece × Tree),
    memberTokens members = members.map keyed
  | [] => rfl
  | m :: members => congrArg (keyed m :: ·) (memberTokens_eq members)

theorem tokens_array (items : List Tree) :
    (array items).tokens = .openArray :: closedParts .closeArray (items.map tokens) := by
  rw [tokens, itemTokens_eq]

theorem tokens_object (members : List (List Piece × Tree)) :
    (object members).tokens = .openObject :: closedParts .closeObject (members.map keyed) := by
  rw [tokens, memberTokens_eq]

/-- What holds of the values without parts, and of a value if it holds of its parts, holds of
every value. -/
@[elab_as_elim, induction_eliminator]
theorem induction {p : Tree → Prop} (literal : ∀ value, p (.literal value))
    (number : ∀ n, p (.number n)) (text : ∀ pieces, p (.text pieces))
    (array : ∀ items : List Tree, (∀ t ∈ items, p t) → p (.array items))
    (object : ∀ members : List (List Piece × Tree), (∀ m ∈ members, p m.2) → p (.object members))
    (t : Tree) : p t :=
  Tree.rec (motive_1 := p) (motive_2 := fun items => ∀ t ∈ items, p t)
    (motive_3 := fun members => ∀ m ∈ members, p m.2) (motive_4 := fun m => p m.2)
    literal number text array object
    (fun _ h => absurd h List.not_mem_nil)
    (fun _ _ ht hitems => List.forall_mem_cons.2 ⟨ht, hitems⟩)
    (fun _ h => absurd h List.not_mem_nil)
    (fun _ _ hm hmembers => List.forall_mem_cons.2 ⟨hm, hmembers⟩)
    (fun _ _ ht => ht) t

end Tree

/-- The characters are the tokens in their order, with any white space around each. -/
inductive Spells : List Token → List Char → Prop
  | nil {space : List Char} (hspace : ∀ c ∈ space, isSpace c = true) : Spells [] space
  | cons {space l cs : List Char} {t : Token} {ts : List Token}
      (hspace : ∀ c ∈ space, isSpace c = true) (ht : t.Spelling l) (h : Spells ts cs) :
      Spells (t :: ts) (space ++ (l ++ cs))

/-- The text is the value, with any white space around its tokens. -/
def Tree.IsText (t : Tree) (text : String) : Prop := Spells t.tokens text.toList

/-- A number does not follow on a number, with which it would be one. -/
def Apart (a b : Token) : Prop := a.isNumber = true → b.isNumber = false

variable {t : Token} {ts : List Token} {cs l space : List Char} {text : String}

/-! ## Scanning a text -/

theorem scanTokens_append : ∀ (fuel : Nat) (cs : List Char) (before : List Token),
    scanTokens fuel cs before = before.reverse ++ scanTokens fuel cs []
  | 0, _, before => (List.append_nil _).symm
  | _ + 1, [], before => (List.append_nil _).symm
  | fuel + 1, c :: cs, before => by
    unfold scanTokens
    split_ifs
    · exact scanTokens_append fuel cs before
    · dsimp only
      split_ifs
      · rw [scanTokens_append fuel _ (_ :: before), scanTokens_append fuel _ [_],
          List.reverse_cons, List.append_assoc]
        rfl
      · simp

theorem scanTokens_space (hspace : ∀ c ∈ space, isSpace c = true) (fuel : Nat) :
    scanTokens (space.length + fuel) (space ++ cs) [] = scanTokens fuel cs [] := by
  induction space with
  | nil => rw [List.length_nil, Nat.zero_add, List.nil_append]
  | cons c space ih =>
    rw [List.length_cons, Nat.add_right_comm, List.cons_append, scanTokens,
      if_pos (hspace c List.mem_cons_self)]
    exact ih fun d hd => hspace d (List.mem_cons_of_mem _ hd)

theorem isWhole_of_spelling (h : t.Spelling l) : t.isWhole = true := by
  cases h with
  | mark h => cases t <;> cases h <;> rfl
  | literal => rfl
  | number => rfl
  | text => rfl

theorem ne_nil_of_spelling (h : t.Spelling l) : l ≠ [] := by
  cases h with
  | mark => exact List.cons_ne_nil _ _
  | literal value => rcases value with _ | _ | _ <;> exact List.cons_ne_nil _ _
  | number h =>
    cases h with
    | mk hwhole =>
      exact List.append_ne_nil_of_right_ne_nil _ (List.append_ne_nil_of_left_ne_nil hwhole.1 _)
  | text => exact List.cons_ne_nil _ _

theorem not_digit_of_isSpace {c : Char} (hc : isSpace c = true) :
    c.isDigit = false ∧ c ≠ '.' ∧ c ≠ 'e' ∧ c ≠ 'E' := by
  simp only [isSpace, Bool.or_eq_true, decide_eq_true_eq] at hc
  rcases hc with ((rfl | rfl) | rfl) | rfl <;> decide

theorem stops_of_spelling (h : t.Spelling l) (ht : t.isNumber = false) : Stops (l ++ cs) := by
  have hstops (c : Char) (cs : List Char)
      (hc : c.isDigit = false ∧ c ≠ '.' ∧ c ≠ 'e' ∧ c ≠ 'E') : Stops (c :: cs) := by
    rintro d hd
    obtain rfl := Option.some.inj hd
    exact hc
  cases h with
  | @mark _ c h =>
    refine hstops c cs ?_
    cases t <;> cases h <;> decide
  | literal value => rcases value with _ | _ | _ <;> exact hstops _ _ (by decide)
  | number => cases ht
  | text => exact hstops _ _ (by decide)

/-- Tokens that do not begin with a number do not go on with one. -/
theorem stops_of_spells (h : Spells ts cs) (ht : ∀ t ∈ ts.head?, t.isNumber = false) :
    Stops cs := by
  have hspaces {space : List Char} (hspace : ∀ c ∈ space, isSpace c = true) (cs : List Char)
      (hcs : Stops cs) : Stops (space ++ cs) := by
    rcases space with _ | ⟨c, space⟩
    · exact hcs
    · rintro d hd
      obtain rfl := Option.some.inj hd
      exact not_digit_of_isSpace (hspace c List.mem_cons_self)
  cases h with
  | nil hspace =>
    rw [← List.append_nil cs]
    exact hspaces hspace [] fun c hc => by cases hc
  | cons hspace hl _ => exact hspaces hspace _ (stops_of_spelling hl (ht _ rfl))

theorem scanTokens_of_spells (h : Spells ts cs) (hapart : ts.IsChain Apart) {fuel : Nat}
    (hfuel : cs.length ≤ fuel) : scanTokens fuel cs [] = ts := by
  induction h generalizing fuel with
  | @nil space hspace =>
    obtain ⟨fuel, rfl⟩ := Nat.exists_eq_add_of_le hfuel
    have hscan : scanTokens (space.length + fuel) (space ++ []) [] = scanTokens fuel [] [] :=
      scanTokens_space hspace fuel
    rw [List.append_nil] at hscan
    rw [hscan]
    cases fuel <;> rfl
  | @cons space l cs t ts hspace ht h ih =>
    rw [List.isChain_cons] at hapart
    have hstops : t.isNumber = true → Stops cs := fun hnumber =>
      stops_of_spells h fun b hb => hapart.1 b hb hnumber
    obtain ⟨c, rest, hcs, hc, hscan⟩ := scanToken_append ht hstops
    have hpos := List.length_pos_iff.2 (ne_nil_of_spelling ht)
    have hlength := congrArg List.length hcs
    simp only [List.length_append, List.length_cons] at hlength hfuel
    obtain ⟨fuel, rfl⟩ : ∃ k, fuel = space.length + (k + 1) := ⟨fuel - space.length - 1, by omega⟩
    rw [scanTokens_space hspace, hcs, scanTokens, if_neg (Bool.eq_false_iff.1 hc), hscan]
    dsimp only
    rw [if_pos (isWhole_of_spelling ht), scanTokens_append, ih hapart.2 (by omega)]
    rfl

theorem Spells.behind_space {c : Char} (hc : isSpace c = true) (h : Spells ts cs) :
    Spells ts (c :: cs) := by
  cases h with
  | nil hspace => exact .nil (List.forall_mem_cons.2 ⟨hc, hspace⟩)
  | cons hspace ht h => exact .cons (List.forall_mem_cons.2 ⟨hc, hspace⟩) ht h

theorem spells_of_scanTokens : ∀ (fuel : Nat) {cs : List Char}, cs.length ≤ fuel →
    (∀ t ∈ scanTokens fuel cs [], t.isWhole = true) → Spells (scanTokens fuel cs []) cs
  | 0, cs, hfuel, _ => by
    rw [List.length_eq_zero_iff.1 (Nat.le_zero.1 hfuel)]
    exact .nil fun c hc => absurd hc List.not_mem_nil
  | fuel + 1, [], _, _ => .nil fun c hc => absurd hc List.not_mem_nil
  | fuel + 1, c :: cs, hfuel, hwhole => by
    have hlength : cs.length ≤ fuel := Nat.le_of_succ_le_succ hfuel
    rw [scanTokens] at hwhole ⊢
    split_ifs at hwhole ⊢ with hspace
    · exact (spells_of_scanTokens fuel hlength hwhole).behind_space hspace
    · rcases hscan : scanToken c cs with ⟨t, rest⟩
      rw [hscan] at hwhole
      dsimp only at hwhole ⊢
      split_ifs at hwhole ⊢ with ht
      · obtain ⟨l, hcs, hl⟩ := exists_of_scanToken hscan ht
        have hpos := List.length_pos_iff.2 (ne_nil_of_spelling hl)
        have hrest := congrArg List.length hcs
        simp only [List.length_append, List.length_cons] at hrest
        rw [scanTokens_append, List.reverse_singleton, List.singleton_append] at hwhole ⊢
        have ih := spells_of_scanTokens fuel (by omega) (List.forall_mem_cons.1 hwhole).2
        rw [hcs]
        exact .cons (fun c hc => absurd hc List.not_mem_nil) hl ih
      · exact absurd (hwhole t List.mem_cons_self) ht

theorem tokensOf_of_spells (h : Spells ts text.toList) (hapart : ts.IsChain Apart) :
    tokensOf text = ts := scanTokens_of_spells h hapart le_rfl

theorem spells_of_tokensOf (h : tokensOf text = ts) (hwhole : ∀ t ∈ ts, t.isWhole = true) :
    Spells ts text.toList := by
  rw [← h] at hwhole ⊢
  exact spells_of_scanTokens _ le_rfl hwhole

/-! ## The tokens of a value -/

section Parts

variable {close : Token} {part : List Token} {parts : List (List Token)}

theorem isWhole_of_mem_moreParts (hclose : close.isWhole = true)
    (h : ∀ part ∈ parts, ∀ a ∈ part, a.isWhole = true) :
    ∀ a ∈ moreParts close parts, a.isWhole = true := by
  induction parts with
  | nil => exact List.forall_mem_singleton.2 hclose
  | cons part parts ih =>
    obtain ⟨hpart, hparts⟩ := List.forall_mem_cons.1 h
    exact List.forall_mem_cons.2 ⟨rfl, List.forall_mem_append.2 ⟨hpart, ih hparts⟩⟩

theorem isWhole_of_mem_closedParts (hclose : close.isWhole = true)
    (h : ∀ part ∈ parts, ∀ a ∈ part, a.isWhole = true) :
    ∀ a ∈ closedParts close parts, a.isWhole = true := by
  cases parts with
  | nil => exact List.forall_mem_singleton.2 hclose
  | cons part parts =>
    obtain ⟨hpart, hparts⟩ := List.forall_mem_cons.1 h
    exact List.forall_mem_append.2 ⟨hpart, isWhole_of_mem_moreParts hclose hparts⟩

/-- The tokens hold no number behind a number, nor end with one if none comes next. -/
def Chains (ts : List Token) : Prop :=
  ∀ rest : List Token, rest.IsChain Apart → (∀ b ∈ rest.head?, b.isNumber = false) →
    (ts ++ rest).IsChain Apart

theorem Chains.cons (ht : t.isNumber = false) (h : Chains ts) : Chains (t :: ts) :=
  fun rest hchain hrest => List.isChain_cons.2
    ⟨fun _ _ hnumber => absurd hnumber (Bool.eq_false_iff.1 ht), h rest hchain hrest⟩

theorem Chains.single (t : Token) : Chains [t] := fun _ hchain hrest =>
  List.isChain_cons.2 ⟨fun b hb _ => hrest b hb, hchain⟩

theorem chains_append_cons (hpart : Chains part) (ht : t.isNumber = false) (h : Chains (t :: ts)) :
    Chains (part ++ t :: ts) := by
  intro rest hchain hrest
  rw [List.append_assoc]
  refine hpart _ (h rest hchain hrest) fun b hb => ?_
  obtain rfl := Option.some.inj hb
  exact ht

theorem chains_append_moreParts (hclose : close.isNumber = false)
    (h : ∀ part ∈ parts, Chains part) (hpart : Chains part) :
    Chains (part ++ moreParts close parts) := by
  induction parts generalizing part with
  | nil => exact chains_append_cons hpart hclose (.single close)
  | cons next parts ih =>
    obtain ⟨hnext, hparts⟩ := List.forall_mem_cons.1 h
    exact chains_append_cons hpart rfl ((ih hparts hnext).cons rfl)

theorem chains_closedParts (hclose : close.isNumber = false) (h : ∀ part ∈ parts, Chains part) :
    Chains (closedParts close parts) := by
  cases parts with
  | nil => exact .single close
  | cons part parts =>
    obtain ⟨hpart, hparts⟩ := List.forall_mem_cons.1 h
    exact chains_append_moreParts hclose hparts hpart

end Parts

namespace Tree

theorem isWhole_of_mem_tokens (t : Tree) : ∀ a ∈ t.tokens, a.isWhole = true := by
  induction t with
  | literal => exact List.forall_mem_singleton.2 rfl
  | number => exact List.forall_mem_singleton.2 rfl
  | text => exact List.forall_mem_singleton.2 rfl
  | array items ih =>
    rw [tokens_array]
    exact List.forall_mem_cons.2
      ⟨rfl, isWhole_of_mem_closedParts rfl (List.forall_mem_map.2 ih)⟩
  | object members ih =>
    rw [tokens_object]
    refine List.forall_mem_cons.2
      ⟨rfl, isWhole_of_mem_closedParts rfl (List.forall_mem_map.2 fun m hm => ?_)⟩
    exact List.forall_mem_cons.2 ⟨rfl, List.forall_mem_cons.2 ⟨rfl, ih m hm⟩⟩

theorem chains_tokens (t : Tree) : Chains t.tokens := by
  induction t with
  | literal => exact .single _
  | number => exact .single _
  | text => exact .single _
  | array items ih =>
    rw [tokens_array]
    exact (chains_closedParts rfl (List.forall_mem_map.2 ih)).cons rfl
  | object members ih =>
    rw [tokens_object]
    exact (chains_closedParts rfl (List.forall_mem_map.2 fun m hm =>
      ((ih m hm).cons rfl).cons rfl)).cons rfl

/-- A text is scanned as the tokens of a value exactly if it is the value. -/
theorem tokensOf_eq_iff {t : Tree} : tokensOf text = t.tokens ↔ t.IsText text := by
  refine ⟨fun h => spells_of_tokensOf h t.isWhole_of_mem_tokens, fun h => tokensOf_of_spells h ?_⟩
  have hchain := t.chains_tokens [] .nil fun b hb => by cases hb
  rwa [List.append_nil] at hchain

end Tree

end CookingIsa.Json
