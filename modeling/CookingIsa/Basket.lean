import CookingIsa.Ingredient
import CookingIsa.Policy

/-!
# Baskets

A basket holds the ingredients chosen so far. Choosing again replaces what was chosen, and nothing
is ever taken out.
-/

namespace CookingIsa

/-- What was chosen for each ingredient, if anything. -/
structure Basket where
  get? : Ingredient → Option String

namespace Basket

def empty : Basket := ⟨fun _ => none⟩

def put (b : Basket) (i : Ingredient) (choice : String) : Basket :=
  ⟨fun j => if j = i then some choice else b.get? j⟩

/-- The choices in the order of the ingredients. -/
def toList (b : Basket) : List (Option String) := Ingredient.all.map b.get?

/-- The first ingredient for which nothing is chosen. -/
def missing? (b : Basket) : Option Ingredient :=
  Ingredient.all.find? fun i => (b.get? i).isNone

def isComplete (b : Basket) : Bool := b.missing?.isNone

def choice (b : Basket) (i : Ingredient) : String := (b.get? i).getD ""

def presentation (b : Basket) : String :=
  "Tonight I have prepared for you all a world-class, gourmet, masterpiece of a dish that will " ++
  "surely transform your night. This dish incorporates " ++ b.choice .protein ++ ", with " ++
  b.choice .grains ++ ", " ++ b.choice .vegetable ++ ", and " ++ b.choice .dairy ++
  " for added flavor, as well as " ++ b.choice .fruit ++
  " as garnish, all being of the highest quality. Enjoy!"

/-- The presentation of the dish, or the ingredient for whose lack it is refused. -/
def dish (b : Basket) (policy : UnchosenPolicy) : Except Ingredient String :=
  match policy, b.missing? with
  | .fault, some i => .error i
  | _, _ => .ok b.presentation

@[simp] theorem get?_put (b : Basket) (i j : Ingredient) (choice : String) :
    (b.put i choice).get? j = if j = i then some choice else b.get? j := rfl

theorem isComplete_iff (b : Basket) : b.isComplete = true ↔ ∀ i, b.get? i ≠ none := by
  simp only [isComplete, missing?, Option.isNone_iff_eq_none, List.find?_eq_none]
  exact ⟨fun h i => h i i.mem_all, fun h i _ => h i⟩

end Basket

end CookingIsa
