import Mathlib
import CookingIsa.Config.Reader
import CookingIsa.Proofs.Json.Record

/-!
# The settings of a configuration

A configuration is a value for some of the settings and the default for each of the others
(`ofChoices`). It is written as a record of sections, each a record of settings (`Written`). The
fields of a record are read one after the other, each changing what was read so far. As no field
comes twice and each has settings of its own, nothing depends on their order (`changes_iff`).
-/

namespace CookingIsa.Config

open Json

/-- The sections in which a configuration is written. -/
inductive Section where
  | general
  | arithmetic
  | session
  | memory
  | hostCall
deriving DecidableEq

inductive Setting where
  | traceInstructions
  | mode
  | unsetSlot
  | base
  | size
  | selectorRegister
  | argumentRegister
deriving DecidableEq

namespace Setting

@[reducible]
def Value : Setting → Type
  | traceInstructions => Bool
  | mode => ArithmeticMode
  | unsetSlot => UnchosenPolicy
  | base | size | selectorRegister | argumentRegister => Nat

def name : Setting → String
  | traceInstructions => "trace_instructions"
  | mode => "mode"
  | unsetSlot => "unset_slot"
  | base => "base"
  | size => "size"
  | selectorRegister => "selector_register"
  | argumentRegister => "argument_register"

/-- The section in which the setting is written. -/
def home : Setting → Section
  | traceInstructions => .general
  | mode => .arithmetic
  | unsetSlot => .session
  | base | size => .memory
  | selectorRegister | argumentRegister => .hostCall

/-- How a value is written for the setting. -/
def Writes : (x : Setting) → Tree → x.Value → Prop
  | traceInstructions, t, b => t = .literal (some b)
  | mode, t, m => t.Names m.name
  | unsetSlot, t, p => t.Names p.name
  | base, t, n | size, t, n => t.Denotes n ∧ n < UInt32.size
  | selectorRegister, t, n | argumentRegister, t, n => t.Denotes n ∧ n < UInt64.size

/-- Reads the value of the setting. -/
def read : (x : Setting) → Reader x.Value
  | traceInstructions => readBool
  | mode => readVariant arithmeticModes
  | unsetSlot => readVariant unchosenPolicies
  | base | size => readWord
  | selectorRegister | argumentRegister => readSize

def put : (x : Setting) → Config → x.Value → Config
  | traceInstructions, c, b => { c with traceInstructions := b }
  | mode, c, m => { c with arithmetic := m }
  | unsetSlot, c, p => { c with unchosen := p }
  | base, c, n => { c with memoryBase := BitVec.ofNat 32 n }
  | size, c, n => { c with memorySize := n }
  | selectorRegister, c, n => { c with selectorRegister := n }
  | argumentRegister, c, n => { c with argumentRegister := n }

def member (x : Setting) : Member Config := .setting x.name x.read x.put

end Setting

namespace Section

def all : List Section := [general, arithmetic, session, memory, hostCall]

def name : Section → String
  | general => "general"
  | arithmetic => "arithmetic"
  | session => "session"
  | memory => "memory"
  | hostCall => "host_call"

/-- The settings of a section in their order. -/
def settings : Section → List Setting
  | general => [.traceInstructions]
  | arithmetic => [.mode]
  | session => [.unsetSlot]
  | memory => [.base, .size]
  | hostCall => [.selectorRegister, .argumentRegister]

def wanted : Section → String
  | general => "struct GeneralConfig"
  | arithmetic => "struct ArithmeticConfig"
  | session => "struct SessionConfig"
  | memory => "struct MemoryConfig"
  | hostCall => "struct HostCallConfig"

def member (s : Section) : Member Config :=
  ⟨s.name, readRecord (s.settings.map Setting.member) s.wanted⟩

end Section

theorem sections_eq : sections = Section.all.map Section.member := rfl

/-- For each setting a value, or nothing. -/
abbrev Choices : Type := (x : Setting) → Option x.Value

/-- The chosen values, and the default where nothing is chosen. -/
def ofChoices (ch : Choices) : Config :=
  let default : Config := {}
  { traceInstructions := (ch .traceInstructions).getD default.traceInstructions
    arithmetic := (ch .mode).getD default.arithmetic
    unchosen := (ch .unsetSlot).getD default.unchosen
    memoryBase := ((ch .base).map (BitVec.ofNat 32)).getD default.memoryBase
    memorySize := (ch .size).getD default.memorySize
    selectorRegister := (ch .selectorRegister).getD default.selectorRegister
    argumentRegister := (ch .argumentRegister).getD default.argumentRegister }

/-- The fields of a record, of which there are none if it is left out. -/
inductive FieldsOf (names : List String) : Option Tree → List (String × Tree) → Prop
  | absent : FieldsOf names none []
  | written {t : Tree} {fields : List (String × Tree)} (h : t.Fields names fields) :
      FieldsOf names (some t) fields

/-- The fields of a section write the chosen values of its settings, and no others. -/
def Section.Writes (s : Section) (fields : List (String × Tree)) (ch : Choices) : Prop :=
  ∀ x : Setting, x.home = s → Option.Rel x.Writes (fields.lookup x.name) (ch x)

/-- The value is a configuration in which the chosen values are written, and no others. -/
def Written (doc : Tree) (ch : Choices) : Prop :=
  ∃ sections : List (String × Tree), doc.Fields (Section.all.map Section.name) sections ∧
    ∀ s : Section, ∃ fields : List (String × Tree),
      FieldsOf (s.settings.map Setting.name) (sections.lookup s.name) fields ∧ s.Writes fields ch

variable {ch : Choices} {c' : Config} {s : Section} {x : Setting}
  {fields : List (String × Tree)} {name : String}

theorem mem_settings : x ∈ s.settings ↔ x.home = s := by
  cases s <;> cases x <;> decide

theorem Setting.name_injective : Function.Injective Setting.name := by
  intro x y
  cases x <;> cases y <;> decide

theorem Section.name_injective : Function.Injective Section.name := by
  intro s s'
  cases s <;> cases s' <;> decide

theorem rel_none_iff {α β : Type} {P : α → β → Prop} {b : Option β} :
    Option.Rel P none b ↔ b = none := by
  cases b <;> simp

theorem rel_some_iff {α β : Type} {P : α → β → Prop} {a : α} {b : Option β} :
    Option.Rel P (some a) b ↔ ∃ v, P a v ∧ b = some v := by
  cases b <;> simp

/-! ## Single settings -/

theorem lookup_arithmeticModes {m : ArithmeticMode} :
    arithmeticModes.lookup name = some m ↔ name = m.name := by
  rw [lookup_eq_some_iff_mem (by decide)]
  cases m <;> simp [arithmeticModes, ArithmeticMode.name]

theorem lookup_unchosenPolicies {p : UnchosenPolicy} :
    unchosenPolicies.lookup name = some p ↔ name = p.name := by
  rw [lookup_eq_some_iff_mem (by decide)]
  cases p <;> simp [unchosenPolicies, UnchosenPolicy.name]

theorem reads_read (x : Setting) : Reads x.read x.Writes := by
  cases x with
  | traceInstructions => exact reads_readBool
  | mode =>
    refine reads_readVariant.congr fun t m => ?_
    simp only [lookup_arithmeticModes, exists_eq_right]
    rfl
  | unsetSlot =>
    refine reads_readVariant.congr fun t p => ?_
    simp only [lookup_unchosenPolicies, exists_eq_right]
    rfl
  | base => exact reads_readNatural (by decide)
  | size => exact reads_readNatural (by decide)
  | selectorRegister => exact reads_readNatural le_rfl
  | argumentRegister => exact reads_readNatural le_rfl

theorem ofChoices_update (ch : Choices) (x : Setting) (v : x.Value) :
    ofChoices (Function.update ch x (some v)) = x.put (ofChoices ch) v := by
  cases x <;> rfl

/-! ## Fields in any order -/

section Fields

variable (owner : Setting → String) (Step : String → Tree → Config → Config → Prop)
  (Gives : String → Tree → Choices → Prop)

/-- What a field gives concerns only the settings that belong to its name. -/
def Concerns : Prop :=
  ∀ (name : String) (t : Tree) (ch ch' : Choices), (∀ x, owner x = name → ch x = ch' x) →
    Gives name t ch → Gives name t ch'

/-- The step for a field makes the choices that it gives, and leaves the others. -/
def Chooses (name : String) (t : Tree) : Prop :=
  ∀ (ch : Choices) (c' : Config), (∀ x, owner x = name → ch x = none) →
    (Step name t (ofChoices ch) c' ↔
      ∃ ch', c' = ofChoices ch' ∧ Gives name t ch' ∧ ∀ x, owner x ≠ name → ch' x = ch x)

variable {owner Step Gives}

/-- Fields of different names make their choices in any order. -/
theorem changes_iff (hgives : Concerns owner Gives)
    (hstep : ∀ field ∈ fields, Chooses owner Step Gives field.1 field.2)
    (hnodup : (fields.map Prod.fst).Nodup)
    (hfresh : ∀ x, owner x ∈ fields.map Prod.fst → ch x = none) :
    Changes Step fields (ofChoices ch) c' ↔
      ∃ ch', c' = ofChoices ch' ∧ (∀ field ∈ fields, Gives field.1 field.2 ch') ∧
        ∀ x, owner x ∉ fields.map Prod.fst → ch' x = ch x := by
  induction fields generalizing ch with
  | nil =>
    constructor
    · intro h
      cases h
      exact ⟨ch, rfl, fun _ h => absurd h List.not_mem_nil, fun _ _ => rfl⟩
    · rintro ⟨ch', rfl, -, hsame⟩
      obtain rfl : ch' = ch := funext fun x => hsame x List.not_mem_nil
      exact .nil
  | cons field fields ih =>
    obtain ⟨name, t⟩ := field
    obtain ⟨hfirst, hothers⟩ := List.forall_mem_cons.1 hstep
    rw [List.map_cons, List.nodup_cons] at hnodup
    rw [List.map_cons] at hfresh
    have hfreshName : ∀ x, owner x = name → ch x = none :=
      fun x hx => hfresh x (hx ▸ List.mem_cons_self)
    have hfreshRest : ∀ x, owner x ∈ fields.map Prod.fst → ch x = none :=
      fun x hx => hfresh x (List.mem_cons_of_mem _ hx)
    have hne : ∀ x, owner x ∈ fields.map Prod.fst → owner x ≠ name :=
      fun x hx heq => hnodup.1 (heq ▸ hx)
    constructor
    · intro h
      cases h with
      | cons hchoose hchanges =>
        obtain ⟨ch₁, rfl, hname, hother⟩ := (hfirst ch _ hfreshName).1 hchoose
        obtain ⟨ch', rfl, hfields, hsame⟩ := (ih hothers hnodup.2 fun x hx => by
          rw [hother x (hne x hx), hfreshRest x hx]).1 hchanges
        refine ⟨ch', rfl, List.forall_mem_cons.2 ⟨?_, hfields⟩, fun x hx => ?_⟩
        · refine hgives name t ch₁ ch' (fun x hx => (hsame x ?_).symm) hname
          exact hx ▸ hnodup.1
        · rw [hsame x (List.not_mem_of_not_mem_cons hx), hother x (List.ne_of_not_mem_cons hx)]
    · rintro ⟨ch', rfl, hfields, hsame⟩
      obtain ⟨hname, hfields⟩ := List.forall_mem_cons.1 hfields
      -- Behind the first field its own choices are made, and all others are as before.
      let ch₁ : Choices := fun x => if owner x = name then ch' x else ch x
      have hchoose : Step name t (ofChoices ch) (ofChoices ch₁) :=
        (hfirst ch _ hfreshName).2 ⟨ch₁, rfl,
          hgives name t ch' ch₁ (fun x hx => (if_pos hx).symm) hname, fun x hx => if_neg hx⟩
      refine .cons hchoose ((ih hothers hnodup.2 fun x hx => ?_).2
        ⟨ch', rfl, hfields, fun x hx => ?_⟩)
      · exact (if_neg (hne x hx)).trans (hfreshRest x hx)
      · by_cases howner : owner x = name
        · exact (if_pos howner).symm
        · exact (hsame x (List.not_mem_cons_of_ne_of_not_mem howner hx)).trans (if_neg howner).symm

end Fields

end CookingIsa.Config
