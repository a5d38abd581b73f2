/-!
# JSON errors

A text is read from left to right, and the first problem decides: the text breaks the grammar, it
ends within a value, or a value is not what is wanted in its place.
-/

namespace CookingIsa.Json

/-- Why a JSON text cannot be read. -/
inductive Error where
  /-- The text breaks the grammar. -/
  | malformed
  /-- The text ends within a value. -/
  | cut
  /-- A value is not what is wanted. -/
  | unwanted (message : String)
deriving DecidableEq, Repr

end CookingIsa.Json
