import Mathlib
import CookingIsa.Proofs.Json.Reading

/-!
# Records

A record is written as an array of its first fields or as an object of any of them, in any order
and among other members (`Tree.Fields`). Reading it is reading the fields one after the other, each
changing the record (`reads_readRecord`). The array is followed by induction on the members that are
left, the object by induction on what bounds the number of its own members.
-/

namespace CookingIsa.Json

/-- The fields that the members of an object give to a record with fields of these names. A member
with another key gives none, and no two give the same. -/
inductive Members (names : List String) : List (List Piece × Tree) → List (String × Tree) → Prop
  | nil : Members names [] []
  | known {key : List Piece} {name : String} {t : Tree} {members : List (List Piece × Tree)}
      {fields : List (String × Tree)} (hkey : Decodes key name.toList) (hname : name ∈ names)
      (hnew : name ∉ fields.map Prod.fst) (h : Members names members fields) :
      Members names ((key, t) :: members) ((name, t) :: fields)
  | unknown {key : List Piece} {name : String} {t : Tree} {members : List (List Piece × Tree)}
      {fields : List (String × Tree)} (hkey : Decodes key name.toList) (hname : name ∉ names)
      (h : Members names members fields) : Members names ((key, t) :: members) fields

/-- The fields that a value gives to a record with fields of these names: the items of an array in
the order of the names, of which the last may be left out, or the members of an object. -/
inductive Tree.Fields (names : List String) : Tree → List (String × Tree) → Prop
  | array {items : List Tree} (h : items.length ≤ names.length) :
      Fields names (.array items) (names.zip items)
  | object {members : List (List Piece × Tree)} {fields : List (String × Tree)}
      (h : Members names members fields) : Fields names (.object members) fields

/-- The fields change the record one after the other. -/
inductive Changes {σ : Type} (Step : String → Tree → σ → σ → Prop) :
    List (String × Tree) → σ → σ → Prop
  | nil {s : σ} : Changes Step [] s s
  | cons {name : String} {t : Tree} {fields : List (String × Tree)} {s₁ s₂ s₃ : σ}
      (hstep : Step name t s₁ s₂) (h : Changes Step fields s₂ s₃) :
      Changes Step ((name, t) :: fields) s₁ s₃

variable {σ α : Type} {members : List (Member σ)} {Step : String → Tree → σ → σ → Prop}
  {names seen : List String} {name : String} {fields : List (String × Tree)}
  {pairs : List (List Piece × Tree)} {t : Tree} {s s' : σ} {ts rest : List Token} {first : Bool}
  {fuel : Nat}

theorem reads_setting {read : Reader α} {P : Tree → α → Prop} {put : σ → α → σ}
    (h : Reads read P) (s : σ) :
    Reads ((Member.setting name read put).read s) fun t s' => ∃ a, P t a ∧ s' = put s a := by
  intro ts s' rest
  refine bind_eq_ok_iff.trans ⟨?_, ?_⟩
  · rintro ⟨⟨a, _⟩, hread, hput⟩
    cases hput
    obtain ⟨t, rfl, ht⟩ := (h _ _ _).1 hread
    exact ⟨t, rfl, a, ht, rfl⟩
  · rintro ⟨t, rfl, a, ht, rfl⟩
    exact ⟨(a, rest), (h _ _ _).2 ⟨t, rfl, ht⟩, rfl⟩

/-- The members read what the steps say. -/
def ReadsMembers (members : List (Member σ)) (Step : String → Tree → σ → σ → Prop) : Prop :=
  ∀ m ∈ members, ∀ s, Reads (m.read s) fun t s' => Step m.name t s s'

/-! ## The fields of a record -/

theorem lookup_eq_none_iff_not_mem {β : Type} {l : List (String × β)} :
    l.lookup name = none ↔ name ∉ l.map Prod.fst := by
  simp only [List.lookup_eq_none_iff, bne_iff_ne, List.mem_map, not_exists, not_and]
  exact forall₂_congr fun _ _ => ne_comm

/-- Of a list in which no key comes twice, the look-up finds every entry. -/
theorem lookup_eq_some_iff_mem {β : Type} {l : List (String × β)} {b : β}
    (h : (l.map Prod.fst).Nodup) : l.lookup name = some b ↔ (name, b) ∈ l := by
  induction l with
  | nil => simp
  | cons e l ih =>
    obtain ⟨k, b'⟩ := e
    rw [List.map_cons, List.nodup_cons] at h
    by_cases hk : name = k
    · subst hk
      have hnot : (name, b) ∉ l := fun hmem => h.1 (List.mem_map.2 ⟨_, hmem, rfl⟩)
      simp [hnot, eq_comm]
    · have hbeq : (name == k) = false := beq_eq_false_iff_ne.2 hk
      simp [List.lookup_cons, hbeq, hk, ih h.2]

theorem mem_of_members (h : Members names pairs fields) : ∀ field ∈ fields, field.1 ∈ names := by
  induction h with
  | nil => exact fun _ h => absurd h List.not_mem_nil
  | known _ hname _ _ ih => exact List.forall_mem_cons.2 ⟨hname, ih⟩
  | unknown _ _ _ ih => exact ih

theorem nodup_of_members (h : Members names pairs fields) : (fields.map Prod.fst).Nodup := by
  induction h with
  | nil => exact List.nodup_nil
  | known _ _ hnew _ ih => exact List.nodup_cons.2 ⟨hnew, ih⟩
  | unknown _ _ _ ih => exact ih

theorem Tree.Fields.mem_names (h : t.Fields names fields) : ∀ field ∈ fields, field.1 ∈ names := by
  cases h with
  | array => exact fun _ hfield => (List.of_mem_zip hfield).1
  | object h => exact mem_of_members h

theorem Tree.Fields.nodup (h : t.Fields names fields) (hnames : names.Nodup) :
    (fields.map Prod.fst).Nodup := by
  cases h with
  | array =>
    rw [List.zip_eq_zip_take_min, List.map_fst_zip (by simp)]
    exact hnames.sublist (List.take_sublist _ _)
  | object h => exact nodup_of_members h

/-! ## The parts of an array or an object -/

/-- What comes in front of the next part of an array or an object: nothing if it is the first. -/
def lead (first : Bool) : List Token := if first then [] else [.comma]

/-- The parts that are left of an array or an object, and the bracket that closes them. -/
def partsFrom (first : Bool) (close : Token) : List (List Token) → List Token
  | [] => [close]
  | part :: parts => lead first ++ (part ++ moreParts close parts)

theorem partsFrom_true (close : Token) (parts : List (List Token)) :
    partsFrom true close parts = closedParts close parts := by
  cases parts <;> rfl

theorem partsFrom_false (close : Token) (parts : List (List Token)) :
    partsFrom false close parts = moreParts close parts := by
  cases parts <;> rfl

theorem partsFrom_append {close : Token} {part : List Token} {parts : List (List Token)} :
    partsFrom first close (part :: parts) ++ rest =
      lead first ++ (part ++ (partsFrom false close parts ++ rest)) := by
  rw [partsFrom_false, partsFrom, List.append_assoc, List.append_assoc]

theorem length_lt_length_moreParts (close : Token) (parts : List (List Token)) :
    parts.length < (moreParts close parts).length := by
  induction parts with
  | nil => exact Nat.zero_lt_one
  | cons part parts ih =>
    rw [moreParts, List.length_cons, List.length_cons, List.length_append]
    omega

theorem length_le_length_closedParts (close : Token) (parts : List (List Token)) :
    parts.length ≤ (closedParts close parts).length := by
  cases parts with
  | nil => exact Nat.zero_le _
  | cons part parts =>
    have := length_lt_length_moreParts close parts
    rw [closedParts, List.length_cons, List.length_append]
    omega

/-! ## Arrays -/

/-- What is read of an array first: its end, or the value of the next member. -/
theorem readItems_cases (h : readItems members first s ts = .ok (s', rest)) :
    (ts = .closeArray :: rest ∧ s' = s) ∨
      ∃ (m : Member σ) (others : List (Member σ)) (s₁ : σ) (ts₀ ts₁ : List Token),
        members = m :: others ∧ ts = lead first ++ ts₀ ∧ m.read s ts₀ = .ok (s₁, ts₁) ∧
          readItems others false s₁ ts₁ = .ok (s', rest) := by
  unfold readItems at h
  split at h
  · cases h
  · cases h
    exact .inl ⟨rfl, rfl⟩
  · cases h
  · obtain ⟨⟨s₁, ts₁⟩, hread, h⟩ := bind_eq_ok_iff.1 h
    exact .inr ⟨_, _, s₁, _, ts₁, rfl, rfl, hread, h⟩
  · split at h
    · cases h
    · cases h
    · obtain ⟨⟨s₁, ts₁⟩, hread, h⟩ := bind_eq_ok_iff.1 h
      exact .inr ⟨_, _, s₁, _, ts₁, rfl, rfl, hread, h⟩
  · cases h

theorem readItems_item (members : List (Member σ)) (m : Member σ) (first : Bool) (s : σ) (t : Tree)
    (rest : List Token) :
    readItems (m :: members) first s (lead first ++ (t.tokens ++ rest)) =
      m.read s (t.tokens ++ rest) >>= fun x => readItems members false x.1 x.2 := by
  cases t with
  | array => rw [Tree.tokens_array]; cases first <;> rfl
  | object => rw [Tree.tokens_object]; cases first <;> rfl
  | _ => cases first <;> rfl

theorem readItems_close (members : List (Member σ)) (first : Bool) (s : σ) (rest : List Token) :
    readItems members first s (.closeArray :: rest) = .ok (s, rest) := by
  cases members <;> rfl

theorem readItems_eq_ok_iff (hm : ReadsMembers members Step) :
    readItems members first s ts = .ok (s', rest) ↔
      ∃ items : List Tree, ts = partsFrom first .closeArray (items.map Tree.tokens) ++ rest ∧
        items.length ≤ members.length ∧
        Changes Step ((members.map Member.name).zip items) s s' := by
  induction members generalizing first s ts with
  | nil =>
    constructor
    · intro h
      obtain ⟨rfl, rfl⟩ | ⟨m, others, _, _, _, h, -⟩ := readItems_cases h
      · exact ⟨[], rfl, le_rfl, .nil⟩
      · cases h
    · rintro ⟨items, rfl, hlength, hchanges⟩
      obtain rfl := List.length_eq_zero_iff.1 (Nat.le_zero.1 hlength)
      cases hchanges
      exact readItems_close _ _ _ _
  | cons m members ih =>
    obtain ⟨hfirst, hothers⟩ := List.forall_mem_cons.1 hm
    constructor
    · intro h
      obtain ⟨rfl, rfl⟩ | ⟨_, _, s₁, _, ts₁, hcons, rfl, hread, hrest⟩ := readItems_cases h
      · exact ⟨[], rfl, Nat.zero_le _, by rw [List.zip_nil_right]; exact .nil⟩
      · cases hcons
        obtain ⟨t, rfl, hstep⟩ := (hfirst _ _ _ _).1 hread
        obtain ⟨items, rfl, hlength, hchanges⟩ := (ih hothers).1 hrest
        refine ⟨t :: items, ?_, Nat.succ_le_succ hlength, .cons hstep hchanges⟩
        exact partsFrom_append.symm
    · rintro ⟨items, rfl, hlength, hchanges⟩
      cases items with
      | nil =>
        rw [List.zip_nil_right] at hchanges
        cases hchanges
        exact readItems_close _ _ _ _
      | cons t items =>
        cases hchanges with
        | @cons _ _ _ _ s₁ _ hstep hchanges =>
          rw [List.map_cons, partsFrom_append, readItems_item,
            (hfirst _ _ _ _).2 ⟨t, rfl, hstep⟩]
          exact (ih hothers).2 ⟨items, rfl, Nat.le_of_succ_le_succ hlength, hchanges⟩

/-! ## Objects -/

theorem eq_append_of_nextKey {more : Bool} (h : nextKey first ts = .ok (more, rest)) :
    ts = (if more then lead first else [.closeObject]) ++ rest := by
  unfold nextKey at h
  split at h
  · cases h
  · cases h
    rfl
  · split_ifs at h with hfirst
    cases h
    rw [Bool.eq_false_iff.2 hfirst]
    rfl
  · split_ifs at h with hfirst
    cases h
    rw [hfirst]
    rfl

theorem nextKey_key (first : Bool) (key : List Piece) (ts : List Token) :
    nextKey first (lead first ++ .text key .whole :: ts) = .ok (true, .text key .whole :: ts) := by
  cases first <;> rfl

/-- What a member of an object does to the record, behind the keys seen. -/
def Takes (names : List String) (Step : String → Tree → σ → σ → Prop) (seen : List String)
    (name : String) (t : Tree) (s s' : σ) : Prop :=
  if name ∈ names then name ∉ seen ∧ Step name t s s' else s' = s

theorem readMember_eq_ok_iff (hm : ReadsMembers members Step) :
    readMember members name seen s ts = .ok (s', rest) ↔ ∃ t : Tree,
      ts = .colon :: (t.tokens ++ rest) ∧
        Takes (members.map Member.name) Step seen name t s s' := by
  unfold readMember Takes
  split
  · rename_i hnone
    have hname : name ∉ members.map Member.name := by
      simpa using hnone
    simp only [if_neg hname, bind_eq_ok_iff]
    constructor
    · rintro ⟨⟨⟨⟩, ts⟩, hcolon, _, hskip, h⟩
      cases h
      obtain rfl := readColon_eq_ok_iff.1 hcolon
      obtain ⟨t, rfl⟩ := skipValue_eq_ok_iff.1 hskip
      exact ⟨t, rfl, rfl⟩
    · rintro ⟨t, rfl, rfl⟩
      exact ⟨((), _), rfl, rest, skipValue_eq_ok_iff.2 ⟨t, rfl⟩, rfl⟩
  · rename_i m hsome
    have hmem := List.mem_of_find?_eq_some hsome
    obtain rfl : m.name = name := by simpa using List.find?_some hsome
    have hname : m.name ∈ members.map Member.name := List.mem_map_of_mem hmem
    simp only [if_pos hname]
    split_ifs with hseen
    · simp [hseen]
    · rw [bind_eq_ok_iff]
      constructor
      · rintro ⟨⟨⟨⟩, ts⟩, hcolon, h⟩
        obtain rfl := readColon_eq_ok_iff.1 hcolon
        obtain ⟨t, rfl, hstep⟩ := (hm m hmem s _ _ _).1 h
        exact ⟨t, rfl, hseen, hstep⟩
      · rintro ⟨t, rfl, -, hstep⟩
        exact ⟨((), _), rfl, (hm m hmem s _ _ _).2 ⟨t, rfl, hstep⟩⟩

/-- What is read of an object first: its end, or a member. -/
theorem readMembers_succ_eq_ok_iff (hm : ReadsMembers members Step) :
    readMembers members (fuel + 1) first seen s ts = .ok (s', rest) ↔
      ts = .closeObject :: rest ∧ s' = s ∨
        ∃ (key : List Piece) (name : String) (t : Tree) (s₁ : σ) (ts₁ : List Token),
          ts = lead first ++ (Tree.keyed (key, t) ++ ts₁) ∧ Decodes key name.toList ∧
            Takes (members.map Member.name) Step seen name t s s₁ ∧
            readMembers members fuel false (name :: seen) s₁ ts₁ = .ok (s', rest) := by
  constructor
  · intro h
    unfold readMembers at h
    split at h
    · cases h
    · rename_i hkey
      cases h
      exact .inl ⟨eq_append_of_nextKey hkey, rfl⟩
    · rename_i hkey
      obtain ⟨name, hname, h⟩ := bind_eq_ok_iff.1 h
      obtain ⟨⟨s₁, ts₁⟩, hmember, hothers⟩ := bind_eq_ok_iff.1 h
      obtain ⟨t, rfl, htakes⟩ := (readMember_eq_ok_iff hm).1 hmember
      obtain ⟨rfl, hkeyed⟩ := textOf_eq_ok_iff.1 hname
      exact .inr ⟨_, name, t, s₁, ts₁, eq_append_of_nextKey hkey, hkeyed, htakes, hothers⟩
    · cases h
  · rintro (⟨rfl, rfl⟩ | ⟨key, name, t, s₁, ts₁, rfl, hkeyed, htakes, hothers⟩)
    · rfl
    · rw [Tree.keyed, List.cons_append, readMembers, nextKey_key]
      refine bind_eq_ok_iff.2 ⟨name, textOf_eq_ok_iff.2 ⟨rfl, hkeyed⟩, bind_eq_ok_iff.2 ?_⟩
      exact ⟨(s₁, ts₁), (readMember_eq_ok_iff hm).2 ⟨t, rfl, htakes⟩, hothers⟩

theorem exists_of_readMembers (hm : ReadsMembers members Step)
    (h : readMembers members fuel first seen s ts = .ok (s', rest)) :
    ∃ pairs fields, ts = partsFrom first .closeObject (pairs.map Tree.keyed) ++ rest ∧
      Members (members.map Member.name) pairs fields ∧ (∀ field ∈ fields, field.1 ∉ seen) ∧
      Changes Step fields s s' := by
  induction fuel generalizing first seen s ts with
  | zero => cases h
  | succ fuel ih =>
    obtain ⟨rfl, rfl⟩ | ⟨key, name, t, s₁, ts₁, rfl, hkey, htakes, hothers⟩ :=
      (readMembers_succ_eq_ok_iff hm).1 h
    · exact ⟨[], [], rfl, .nil, fun _ h => absurd h List.not_mem_nil, .nil⟩
    · obtain ⟨pairs, fields, rfl, hpairs, hnew, hchanges⟩ := ih hothers
      have hunseen : ∀ field ∈ fields, field.1 ∉ seen :=
        fun field hfield hseen => hnew field hfield (List.mem_cons_of_mem _ hseen)
      have htokens : lead first ++ (Tree.keyed (key, t) ++
          (partsFrom false .closeObject (pairs.map Tree.keyed) ++ rest)) =
          partsFrom first .closeObject (((key, t) :: pairs).map Tree.keyed) ++ rest :=
        partsFrom_append.symm
      unfold Takes at htakes
      split_ifs at htakes with hname
      · refine ⟨(key, t) :: pairs, (name, t) :: fields, htokens, .known hkey hname ?_ hpairs,
          List.forall_mem_cons.2 ⟨htakes.1, hunseen⟩, .cons htakes.2 hchanges⟩
        intro hmem
        obtain ⟨field, hfield, rfl⟩ := List.mem_map.1 hmem
        exact hnew field hfield List.mem_cons_self
      · rw [htakes] at hchanges
        exact ⟨(key, t) :: pairs, fields, htokens, .unknown hkey hname hpairs, hunseen, hchanges⟩

theorem readMembers_of_members (hm : ReadsMembers members Step)
    (hpairs : Members (members.map Member.name) pairs fields) (hfuel : pairs.length < fuel)
    (hnew : ∀ field ∈ fields, field.1 ∉ seen) (hchanges : Changes Step fields s s') :
    readMembers members fuel first seen s
      (partsFrom first .closeObject (pairs.map Tree.keyed) ++ rest) = .ok (s', rest) := by
  induction hpairs generalizing first seen s fuel with
  | nil =>
    obtain ⟨fuel, rfl⟩ := Nat.exists_eq_succ_of_ne_zero (Nat.ne_of_gt hfuel)
    cases hchanges
    exact (readMembers_succ_eq_ok_iff hm).2 (.inl ⟨rfl, rfl⟩)
  | @known key name t pairs fields hkey hname hnot _ ih =>
    obtain ⟨fuel, rfl⟩ := Nat.exists_eq_succ_of_ne_zero (Nat.ne_of_gt (Nat.zero_lt_of_lt hfuel))
    obtain ⟨hfirst, hothers⟩ := List.forall_mem_cons.1 hnew
    cases hchanges with
    | @cons _ _ _ _ s₁ _ hstep hchanges =>
      have htakes : Takes (members.map Member.name) Step seen name t s s₁ := by
        rw [Takes, if_pos hname]
        exact ⟨hfirst, hstep⟩
      refine (readMembers_succ_eq_ok_iff hm).2 (.inr ⟨key, name, t, s₁, _, ?_, hkey, htakes,
        ih (Nat.lt_of_succ_lt_succ hfuel) ?_ hchanges⟩)
      · exact partsFrom_append
      · intro field hfield hmem
        rcases List.mem_cons.1 hmem with rfl | hmem
        · exact hnot (List.mem_map_of_mem hfield)
        · exact hothers field hfield hmem
  | @unknown key name t pairs fields hkey hname hfields ih =>
    obtain ⟨fuel, rfl⟩ := Nat.exists_eq_succ_of_ne_zero (Nat.ne_of_gt (Nat.zero_lt_of_lt hfuel))
    have htakes : Takes (members.map Member.name) Step seen name t s s := by
      rw [Takes, if_neg hname]
    refine (readMembers_succ_eq_ok_iff hm).2 (.inr ⟨key, name, t, s, _, ?_, hkey, htakes,
      ih (Nat.lt_of_succ_lt_succ hfuel) ?_ hchanges⟩)
    · exact partsFrom_append
    · intro field hfield hmem
      rcases List.mem_cons.1 hmem with rfl | hmem
      · exact hname (mem_of_members hfields field hfield)
      · exact hnew field hfield hmem

/-! ## Records -/

theorem reads_readRecord (hm : ReadsMembers members Step) (wanted : String) (s : σ) :
    Reads (readRecord members wanted s) fun t s' => ∃ fields : List (String × Tree),
      t.Fields (members.map Member.name) fields ∧ Changes Step fields s s' := by
  intro ts s' rest
  constructor
  · intro h
    unfold readRecord at h
    split at h
    · obtain ⟨items, rfl, hlength, hchanges⟩ := (readItems_eq_ok_iff hm).1 h
      rw [← List.length_map Member.name] at hlength
      refine ⟨.array items, ?_, _, .array hlength, hchanges⟩
      rw [Tree.tokens_array, ← partsFrom_true, List.cons_append]
    · obtain ⟨pairs, fields, rfl, hpairs, -, hchanges⟩ := exists_of_readMembers hm h
      refine ⟨.object pairs, ?_, fields, .object hpairs, hchanges⟩
      rw [Tree.tokens_object, ← partsFrom_true, List.cons_append]
    · exact absurd h mismatch_ne_ok
  · rintro ⟨t, rfl, fields, hfields, hchanges⟩
    cases hfields with
    | @array items hlength =>
      rw [List.length_map] at hlength
      rw [Tree.tokens_array, ← partsFrom_true, List.cons_append]
      exact (readItems_eq_ok_iff hm).2 ⟨items, rfl, hlength, hchanges⟩
    | @object pairs _ hpairs =>
      rw [Tree.tokens_object, ← partsFrom_true, List.cons_append]
      refine readMembers_of_members hm hpairs ?_ (fun _ _ => List.not_mem_nil) hchanges
      have hlength := length_le_length_closedParts .closeObject (pairs.map Tree.keyed)
      rw [List.length_map] at hlength
      rw [partsFrom_true, List.length_append]
      omega

end CookingIsa.Json
