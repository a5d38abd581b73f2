import CookingIsa.Register
import CookingIsa.Word

/-!
# The register file

There are 32 registers of a word each. Register 0 is always zero: writing to it does nothing.
-/

namespace CookingIsa

structure RegisterFile where
  values : Vector Word Register.count
deriving DecidableEq

namespace RegisterFile

def zero : RegisterFile := ⟨Vector.replicate _ 0#32⟩

def get? (r : RegisterFile) (n : Nat) : Option Word :=
  if n = 0 then some 0#32 else r.values[n]?

def set? (r : RegisterFile) (n : Nat) (w : Word) : Option RegisterFile :=
  if n = 0 then some r
  else if h : n < Register.count then some ⟨r.values.set n w⟩
  else none

def toList (r : RegisterFile) : List Word := r.values.toList

/-- The registers whose content has changed since `before`, with their new contents. -/
def changesSince (r before : RegisterFile) : List (Nat × Word) :=
  (List.range Register.count).filterMap fun n =>
    match before.values[n]?, r.values[n]? with
    | some old, some new => if new = old then none else some (n, new)
    | _, _ => none

theorem get?_zero (r : RegisterFile) : r.get? 0 = some 0#32 := rfl

theorem isSome_get? (r : RegisterFile) {n : Nat} (h : n < Register.count) :
    (r.get? n).isSome = true := by
  unfold get?
  split
  · rfl
  · rw [Vector.getElem?_eq_getElem h]
    rfl

/-- A write is seen by a read of the same register, unless it is register 0, and by no other. -/
theorem get?_of_set? {r r' : RegisterFile} {n : Nat} {w : Word} (h : r.set? n w = some r')
    (k : Nat) : r'.get? k = if k = n ∧ n ≠ 0 then some w else r.get? k := by
  unfold set? at h
  by_cases hn : n = 0
  · rw [if_pos hn] at h
    cases h
    rw [if_neg fun hk => hk.2 hn]
  · rw [if_neg hn] at h
    split at h
    · rename_i hlt
      cases h
      by_cases hk : k = n
      · subst hk
        simp [get?, hn, hlt]
      · simp [get?, hk, Vector.getElem?_set_ne hlt fun e => hk e.symm]
    · cases h

end RegisterFile

end CookingIsa
