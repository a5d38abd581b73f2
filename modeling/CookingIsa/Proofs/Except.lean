import Mathlib

/-!
# When steps succeed

Steps that may fail are put together with bind, map and mapError. Each of these succeeds, or fails
in some way, exactly if its parts do. Steps for the items of a list succeed if all of them do, and
else fail as the first that does (`FirstError`).
-/

namespace CookingIsa

variable {ε ε' α β : Type} {x : Except ε α} {a : α} {b : β}

theorem bind_eq_ok_iff {f : α → Except ε β} : x >>= f = .ok b ↔ ∃ a, x = .ok a ∧ f a = .ok b := by
  rcases x with e | a <;> simp [bind, Except.bind]

theorem map_eq_ok_iff {f : α → β} : x.map f = .ok b ↔ ∃ a, x = .ok a ∧ f a = b := by
  rcases x with e | a <;> simp [Except.map]

theorem map_eq_error_iff {f : α → β} {e : ε} : x.map f = .error e ↔ x = .error e := by
  rcases x with e' | a <;> simp [Except.map]

theorem mapError_eq_ok_iff {f : ε → ε'} : x.mapError f = .ok a ↔ x = .ok a := by
  rcases x with e | b <;> simp [Except.mapError]

theorem mapError_eq_error_iff {f : ε → ε'} {e : ε'} :
    x.mapError f = .error e ↔ ∃ e', x = .error e' ∧ f e' = e := by
  rcases x with e' | a <;> simp [Except.mapError]

/-! ## One item after another -/

/-- `x` is the first of the items for which `f` fails, and it fails with `e`. -/
def FirstError (f : α → Except ε β) (xs : List α) (x : α) (e : ε) : Prop :=
  ∃ before after, xs = before ++ x :: after ∧ (∀ y ∈ before, ∃ b, f y = .ok b) ∧ f x = .error e

variable {f : α → Except ε β} {xs : List α} {ys : List β} {x x' : α} {e e' : ε}

theorem exists_map_eq_ok (h : ∀ y ∈ xs, ∃ b, f y = .ok b) :
    ∃ ys : List β, xs.map f = ys.map .ok := by
  induction xs with
  | nil => exact ⟨[], rfl⟩
  | cons x xs ih =>
    obtain ⟨⟨b, hb⟩, hrest⟩ := List.forall_mem_cons.1 h
    obtain ⟨ys, hys⟩ := ih hrest
    exact ⟨b :: ys, by rw [List.map_cons, List.map_cons, hb, hys]⟩

theorem mapM_of_map_eq_ok (g : α → ε → ε') : ∀ {xs : List α} {ys : List β},
    xs.map f = ys.map .ok → (xs.mapM fun x => (f x).mapError (g x)) = .ok ys
  | [], [], _ => rfl
  | x :: xs, y :: ys, h => by
    simp only [List.map_cons, List.cons.injEq] at h
    rw [List.mapM_cons, mapM_of_map_eq_ok g h.2, h.1]
    rfl

theorem FirstError.mapM (g : α → ε → ε') (h : FirstError f xs x e) :
    (xs.mapM fun x => (f x).mapError (g x)) = .error (g x e) := by
  obtain ⟨before, after, rfl, hbefore, hx⟩ := h
  obtain ⟨ys, hys⟩ := exists_map_eq_ok hbefore
  rw [List.mapM_append, mapM_of_map_eq_ok g hys, List.mapM_cons, hx]
  rfl

/-- Everything in front of the first failure succeeds, so no other item is the first. -/
theorem FirstError.eq (h : FirstError f xs x e) (h' : FirstError f xs x' e') : x = x' ∧ e = e' := by
  have hmap := h.mapM fun x e => (x, e)
  rw [h'.mapM fun x e => (x, e)] at hmap
  cases hmap
  exact ⟨rfl, rfl⟩

end CookingIsa
