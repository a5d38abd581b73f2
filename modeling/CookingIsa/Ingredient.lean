/-!
# Ingredients

A dish is made of five ingredients, each chosen by an instruction of its own.
-/

namespace CookingIsa

/-- The ingredients of a dish, in the order in which they are kept. -/
inductive Ingredient where
  | protein
  | grains
  | vegetable
  | fruit
  | dairy
deriving DecidableEq, Repr

namespace Ingredient

def all : List Ingredient := [protein, grains, vegetable, fruit, dairy]

def index : Ingredient → Nat
  | protein => 0
  | grains => 1
  | vegetable => 2
  | fruit => 3
  | dairy => 4

def name : Ingredient → String
  | protein => "protein"
  | grains => "grains"
  | vegetable => "vegetable"
  | fruit => "fruit"
  | dairy => "dairy"

/-- What is asked before an ingredient is chosen. -/
def prompt : Ingredient → String
  | protein => "Enter the protein that you would like to add to your dish: "
  | grains => "Enter the type of grains that you would like to add to your dish: "
  | vegetable => "Enter the vegetable that you would like to add to your dish: "
  | fruit => "Enter the fruit that you would like to add to your dish: "
  | dairy => "Enter the dairy that you would like to add to your dish: "

theorem mem_all (i : Ingredient) : i ∈ all := by
  cases i <;> simp [all]

end Ingredient

end CookingIsa
