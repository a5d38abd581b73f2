import Mathlib
import CookingIsa.Json.Skip
import CookingIsa.Proofs.Json.Tree

/-!
# What is passed over

A value is passed over token by token, with the brackets that are open as the only memory. What is
left to come at a point within it is the rest of the innermost value and of each array or object
around it (`Point.Completes`); every token that may come keeps this so. Exactly a value is passed
over, of whatever depth (`skipValue_eq_ok_iff`).
-/

namespace CookingIsa.Json

/-- What comes behind a value: the rest of each array or object that is open, the innermost
first. -/
def Closes : List Frame → List Token → Prop
  | [], ts => ts = []
  | .array :: outer, ts => ∃ (items : List Tree) (more : List Token),
      ts = moreParts .closeArray (items.map Tree.tokens) ++ more ∧ Closes outer more
  | .object :: outer, ts => ∃ (members : List (List Piece × Tree)) (more : List Token),
      ts = moreParts .closeObject (members.map Tree.keyed) ++ more ∧ Closes outer more

namespace Point

/-- The tokens are the rest of a value from a point within it. -/
def Completes : Point → List Token → Prop
  | ⟨.value, frames⟩, ts => ∃ (t : Tree) (more : List Token),
      ts = t.tokens ++ more ∧ Closes frames more
  | ⟨.firstItem, frames⟩, ts => ∃ (items : List Tree) (more : List Token),
      ts = closedParts .closeArray (items.map Tree.tokens) ++ more ∧ Closes frames.tail more
  | ⟨.firstKey, frames⟩, ts => ∃ (members : List (List Piece × Tree)) (more : List Token),
      ts = closedParts .closeObject (members.map Tree.keyed) ++ more ∧ Closes frames.tail more
  | ⟨.key, frames⟩, ts => ∃ (m : List Piece × Tree) (more : List Token),
      ts = Tree.keyed m ++ more ∧ Closes frames more
  | ⟨.colon, frames⟩, ts => ∃ (t : Tree) (more : List Token),
      ts = .colon :: (t.tokens ++ more) ∧ Closes frames more
  | ⟨.separator, frames⟩, ts => Closes frames ts

/-- The tokens are the rest of a value from a point that may be its end. -/
def CompletesNext : Option Point → List Token → Prop
  | none, ts => ts = []
  | some p, ts => p.Completes ts

/-- Where the first item or key may come, the innermost bracket is the one that was just opened. -/
def Sound : Point → Prop
  | ⟨.firstItem, frames⟩ => frames.head? = some .array
  | ⟨.firstKey, frames⟩ => frames.head? = some .object
  | _ => True

def SoundNext : Option Point → Prop
  | none => True
  | some p => p.Sound

end Point

open Point

variable {p : Point} {e : Expectation} {frames : List Frame} {ts rest : List Token} {token : Token}
  {next : Option Point}

/-! ## Nothing but a value is passed over -/

theorem check_eq_ok_iff {e : Ending} : e.check = .ok () ↔ e = .whole := by
  cases e <;> simp [Ending.check]

theorem map_check_eq_ok_iff {α : Type} {e : Ending} {a b : α} :
    e.check.map (fun _ => a) = .ok b ↔ e = .whole ∧ a = b := by
  cases e <;> simp [Ending.check, Except.map]

theorem closes_of_behindValue? (h : CompletesNext (behindValue? frames) ts) : Closes frames ts := by
  cases frames with
  | nil => exact h
  | cons => exact h

theorem exists_tree_of_behindFirst (h : behindFirst frames token = .ok next)
    (hts : CompletesNext next ts) :
    ∃ (t : Tree) (more : List Token), token :: ts = t.tokens ++ more ∧ Closes frames more := by
  unfold behindFirst at h
  split at h
  · obtain ⟨rfl, rfl⟩ := map_check_eq_ok_iff.1 h
    exact ⟨.literal _, ts, rfl, closes_of_behindValue? hts⟩
  · cases h
    exact ⟨.number _, ts, rfl, closes_of_behindValue? hts⟩
  · obtain ⟨rfl, rfl⟩ := map_check_eq_ok_iff.1 h
    exact ⟨.text _, ts, rfl, closes_of_behindValue? hts⟩
  · cases h
    obtain ⟨items, more, rfl, hmore⟩ := hts
    exact ⟨.array items, more, by rw [Tree.tokens_array]; rfl, hmore⟩
  · cases h
    obtain ⟨members, more, rfl, hmore⟩ := hts
    exact ⟨.object members, more, by rw [Tree.tokens_object]; rfl, hmore⟩
  · cases h

theorem sound_behindValue? (frames : List Frame) : SoundNext (behindValue? frames) := by
  cases frames <;> trivial

theorem sound_of_behindFirst (h : behindFirst frames token = .ok next) : SoundNext next := by
  unfold behindFirst at h
  split at h
  · obtain ⟨-, rfl⟩ := map_check_eq_ok_iff.1 h
    exact sound_behindValue? frames
  · cases h
    exact sound_behindValue? frames
  · obtain ⟨-, rfl⟩ := map_check_eq_ok_iff.1 h
    exact sound_behindValue? frames
  · cases h
    rfl
  · cases h
    rfl
  · cases h

theorem sound_of_advance (h : p.advance token = .ok next) : SoundNext next := by
  unfold advance at h
  split at h
  case h_5 | h_6 | h_7 =>
    cases h
    trivial
  case h_8 | h_9 =>
    obtain ⟨-, rfl⟩ := map_check_eq_ok_iff.1 h
    trivial
  case h_10 | h_11 => exact sound_of_behindFirst h
  case h_12 => cases h
  all_goals
    cases h
    exact sound_behindValue? _

/-- A token that may come, with what completes the value behind it, completes the value. -/
theorem completes_of_advance (hp : p.Sound) (h : p.advance token = .ok next)
    (hts : CompletesNext next ts) : p.Completes (token :: ts) := by
  obtain ⟨expectation, frames⟩ := p
  unfold advance at h
  dsimp only at h
  split at h
  case h_1 | h_2 =>
    cases h
    exact ⟨[], ts, rfl, closes_of_behindValue? hts⟩
  case h_3 | h_4 =>
    cases h
    exact ⟨[], ts, rfl, closes_of_behindValue? hts⟩
  case h_5 =>
    cases h
    obtain ⟨t, _, rfl, items, more, rfl, hmore⟩ := hts
    exact ⟨t :: items, more, by simp [moreParts], hmore⟩
  case h_6 =>
    cases h
    obtain ⟨m, _, rfl, members, more, rfl, hmore⟩ := hts
    exact ⟨m :: members, more, by simp [moreParts], hmore⟩
  case h_7 =>
    cases h
    obtain ⟨t, more, rfl, hmore⟩ := hts
    exact ⟨t, more, rfl, hmore⟩
  case h_8 frames pieces ending =>
    obtain ⟨rfl, rfl⟩ := map_check_eq_ok_iff.1 h
    obtain ⟨outer, rfl⟩ := List.head?_eq_some_iff.1 hp
    obtain ⟨t, _, rfl, members, more, rfl, hmore⟩ := hts
    exact ⟨(pieces, t) :: members, more, by simp [closedParts, Tree.keyed], hmore⟩
  case h_9 pieces ending =>
    obtain ⟨rfl, rfl⟩ := map_check_eq_ok_iff.1 h
    obtain ⟨t, more, rfl, hmore⟩ := hts
    exact ⟨(pieces, t), more, rfl, hmore⟩
  case h_10 => exact exists_tree_of_behindFirst h hts
  case h_11 =>
    obtain ⟨outer, rfl⟩ := List.head?_eq_some_iff.1 hp
    obtain ⟨t, _, hts, items, more, rfl, hmore⟩ := exists_tree_of_behindFirst h hts
    exact ⟨t :: items, more, by simp [hts, closedParts], hmore⟩
  case h_12 => cases h

theorem completes_of_skipFrom (hp : p.Sound) (h : skipFrom p ts = .ok rest) :
    ∃ front, ts = front ++ rest ∧ p.Completes front := by
  induction ts generalizing p with
  | nil => cases h
  | cons token ts ih =>
    rw [skipFrom] at h
    split at h
    · cases h
    · rename_i hstep
      cases h
      exact ⟨[token], rfl, completes_of_advance hp hstep rfl⟩
    · rename_i q hstep
      obtain ⟨front, rfl, hfront⟩ := ih (sound_of_advance hstep) h
      exact ⟨token :: front, rfl, completes_of_advance hp hstep hfront⟩

/-! ## Every value is passed over -/

/-- Passes over the rest of a value from a point that may be its end. -/
def skipNext : Option Point → List Token → Except Error (List Token)
  | none, ts => .ok ts
  | some p, ts => skipFrom p ts

theorem skipFrom_cons (h : p.advance token = .ok next) :
    skipFrom p (token :: ts) = skipNext next ts := by
  rw [skipFrom, h]
  cases next <;> rfl

/-- From the point, the part of an array or an object that is innermost is passed over. -/
def Passes (e : Expectation) (f : Frame) (part : List Token) : Prop :=
  ∀ frames rest, skipFrom ⟨e, f :: frames⟩ (part ++ rest) = skipFrom ⟨.separator, f :: frames⟩ rest

section Parts

variable {first : Expectation} {f : Frame} {close : Token} {parts : List (List Token)}

theorem skipFrom_moreParts
    (hclose : ∀ frames, advance ⟨.separator, f :: frames⟩ close = .ok (behindValue? frames))
    (hcomma : ∀ frames, advance ⟨.separator, f :: frames⟩ .comma = .ok (some ⟨e, f :: frames⟩))
    (h : ∀ part ∈ parts, Passes e f part) (frames : List Frame) (rest : List Token) :
    skipFrom ⟨.separator, f :: frames⟩ (moreParts close parts ++ rest) =
      skipNext (behindValue? frames) rest := by
  induction parts with
  | nil => exact skipFrom_cons (hclose frames)
  | cons part parts ih =>
    obtain ⟨hpart, hparts⟩ := List.forall_mem_cons.1 h
    rw [moreParts, List.cons_append, skipFrom_cons (hcomma frames), List.append_assoc]
    exact (hpart frames _).trans (ih hparts)

theorem skipFrom_closedParts
    (hclose : ∀ frames, advance ⟨.separator, f :: frames⟩ close = .ok (behindValue? frames))
    (hcomma : ∀ frames, advance ⟨.separator, f :: frames⟩ .comma = .ok (some ⟨e, f :: frames⟩))
    (hempty : ∀ frames, advance ⟨first, f :: frames⟩ close = .ok (behindValue? frames))
    (hfirst : ∀ part ∈ parts, Passes first f part) (h : ∀ part ∈ parts, Passes e f part)
    (frames : List Frame) (rest : List Token) :
    skipFrom ⟨first, f :: frames⟩ (closedParts close parts ++ rest) =
      skipNext (behindValue? frames) rest := by
  cases parts with
  | nil => exact skipFrom_cons (hempty frames)
  | cons part parts =>
    rw [closedParts, List.append_assoc, hfirst part List.mem_cons_self]
    exact skipFrom_moreParts hclose hcomma (List.forall_mem_cons.1 h).2 frames rest

end Parts

/-- The value is passed over wherever a value may come. -/
def Tree.Passed (t : Tree) : Prop :=
  ∀ frames rest, skipFrom ⟨.value, frames⟩ (t.tokens ++ rest) = skipNext (behindValue? frames) rest

namespace Tree.Passed

variable {t : Tree}

theorem item (h : t.Passed) : Passes .value .array t.tokens := fun frames => h (.array :: frames)

/-- No value begins with the bracket that may come instead of a first item. -/
theorem first_item (h : t.Passed) : Passes .firstItem .array t.tokens := by
  intro frames rest
  have hvalue := h (.array :: frames) rest
  cases t with
  | literal => exact hvalue
  | number => exact hvalue
  | text => exact hvalue
  | array items =>
    rw [tokens_array] at hvalue ⊢
    exact hvalue
  | object members =>
    rw [tokens_object] at hvalue ⊢
    exact hvalue

theorem keyed {m : List Piece × Tree} (h : m.2.Passed)
    (he : e = .key ∨ e = .firstKey) : Passes e .object (Tree.keyed m) := by
  intro frames rest
  have hkey : advance ⟨e, .object :: frames⟩ (.text m.1 .whole) =
      .ok (some ⟨.colon, .object :: frames⟩) := by
    rcases he with rfl | rfl <;> rfl
  have hcolon : advance ⟨.colon, .object :: frames⟩ .colon =
      .ok (some ⟨.value, .object :: frames⟩) := rfl
  exact (skipFrom_cons hkey).trans ((skipFrom_cons hcolon).trans (h (.object :: frames) rest))

end Tree.Passed

theorem Tree.passed (t : Tree) : t.Passed := by
  induction t with
  | literal => exact fun _ _ => skipFrom_cons rfl
  | number => exact fun _ _ => skipFrom_cons rfl
  | text => exact fun _ _ => skipFrom_cons rfl
  | array items ih =>
    intro frames rest
    have hopen : advance ⟨.value, frames⟩ .openArray =
        .ok (some ⟨.firstItem, .array :: frames⟩) := rfl
    rw [tokens_array, List.cons_append, skipFrom_cons hopen]
    refine skipFrom_closedParts (e := .value) (fun _ => rfl) (fun _ => rfl) (fun _ => rfl) ?_ ?_
      frames rest
    · exact List.forall_mem_map.2 fun t ht => (ih t ht).first_item
    · exact List.forall_mem_map.2 fun t ht => (ih t ht).item
  | object members ih =>
    intro frames rest
    have hopen : advance ⟨.value, frames⟩ .openObject =
        .ok (some ⟨.firstKey, .object :: frames⟩) := rfl
    rw [tokens_object, List.cons_append, skipFrom_cons hopen]
    refine skipFrom_closedParts (e := .key) (fun _ => rfl) (fun _ => rfl) (fun _ => rfl) ?_ ?_
      frames rest
    · exact List.forall_mem_map.2 fun m hm => (ih m hm).keyed (.inr rfl)
    · exact List.forall_mem_map.2 fun m hm => (ih m hm).keyed (.inl rfl)

/-- Exactly a value is passed over, whatever comes behind it. -/
theorem skipValue_eq_ok_iff : skipValue ts = .ok rest ↔ ∃ t : Tree, ts = t.tokens ++ rest := by
  constructor
  · intro h
    obtain ⟨_, rfl, t, _, rfl, rfl⟩ := completes_of_skipFrom (p := ⟨.value, []⟩) trivial h
    exact ⟨t, by rw [List.append_nil]⟩
  · rintro ⟨t, rfl⟩
    exact t.passed [] rest

end CookingIsa.Json
