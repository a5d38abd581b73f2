import CookingIsa.Config.Reader

/-!
# Configuration files

A configuration file is read whole, as text in UTF-8.
-/

namespace CookingIsa

inductive ConfigFileError where
  /-- There is no such file, or it is no text. -/
  | unreadable (path : String)
  | json (error : Json.Error)
deriving DecidableEq, Repr

def ConfigFileError.message : ConfigFileError → String
  | unreadable path => s!"cannot read config {path}"
  | json _ => "invalid config JSON"

/-- The configuration in a file with this content, if there is such a file. -/
def Config.ofFile (path : String) (content : Option (List UInt8)) :
    Except ConfigFileError Config :=
  match content.bind fun bytes => String.fromUTF8? ⟨bytes.toArray⟩ with
  | none => .error (.unreadable path)
  | some text => (Config.ofJson text).mapError .json

end CookingIsa
