import CookingIsa.Json.Token

/-!
# Skipping values

A value that nothing is wanted of is passed over, checked for its grammar alone. The brackets that
are open are kept in a list, so values may be nested to any depth.
-/

namespace CookingIsa.Json

/-- The kind of an open bracket. -/
inductive Frame where
  | array
  | object
deriving DecidableEq, Repr

/-- What may come next. -/
inductive Expectation where
  | value
  /-- A value, or the end of the array that was just opened. -/
  | firstItem
  /-- A key, or the end of the object that was just opened. -/
  | firstKey
  | key
  | colon
  /-- A comma, or the end of the innermost array or object. -/
  | separator
deriving DecidableEq, Repr

/-- A point within a value: what may come next there, and the brackets that are open, the innermost
first. -/
structure Point where
  expectation : Expectation
  frames : List Frame
deriving DecidableEq, Repr

namespace Point

/-- The point behind a value, unless it is the whole value. -/
def behindValue? : List Frame → Option Point
  | [] => none
  | frames => some ⟨.separator, frames⟩

/-- The point behind the first token of a value. A number that the text ends in is wrong here. -/
def behindFirst (frames : List Frame) : Token → Except Error (Option Point)
  | .literal _ ending => ending.check.map fun _ => behindValue? frames
  | .number _ .whole => .ok (behindValue? frames)
  | .text _ ending => ending.check.map fun _ => behindValue? frames
  | .openArray => .ok (some ⟨.firstItem, .array :: frames⟩)
  | .openObject => .ok (some ⟨.firstKey, .object :: frames⟩)
  | _ => .error .malformed

/-- The point behind a token, if the token may come here and does not end the value. -/
def advance (p : Point) (token : Token) : Except Error (Option Point) :=
  match p.expectation, p.frames, token with
  | .firstItem, _ :: outer, .closeArray => .ok (behindValue? outer)
  | .firstKey, _ :: outer, .closeObject => .ok (behindValue? outer)
  | .separator, .array :: outer, .closeArray => .ok (behindValue? outer)
  | .separator, .object :: outer, .closeObject => .ok (behindValue? outer)
  | .separator, .array :: outer, .comma => .ok (some ⟨.value, .array :: outer⟩)
  | .separator, .object :: outer, .comma => .ok (some ⟨.key, .object :: outer⟩)
  | .colon, frames, .colon => .ok (some ⟨.value, frames⟩)
  | .firstKey, frames, .text _ ending => ending.check.map fun _ => some ⟨.colon, frames⟩
  | .key, frames, .text _ ending => ending.check.map fun _ => some ⟨.colon, frames⟩
  | .value, frames, token => behindFirst frames token
  | .firstItem, frames, token => behindFirst frames token
  | _, _, _ => .error .malformed

end Point

/-- Passes over the rest of a value from a point within it. -/
def skipFrom (p : Point) : List Token → Except Error (List Token)
  | [] => .error .cut
  | token :: tokens =>
    match p.advance token with
    | .error e => .error e
    | .ok none => .ok tokens
    | .ok (some next) => skipFrom next tokens

def skipValue (tokens : List Token) : Except Error (List Token) := skipFrom ⟨.value, []⟩ tokens

end CookingIsa.Json
