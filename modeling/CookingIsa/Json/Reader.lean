import CookingIsa.Json.Number
import CookingIsa.Json.Skip
import CookingIsa.Text.Quoted

/-!
# Reading JSON values

A reader takes what is wanted from the front of the tokens. A record is written as an object, whose
unknown members are skipped, or as an array of its members in order; what is not written keeps the
value it had.
-/

namespace CookingIsa.Json

/-- Takes a value from the front of the tokens, and gives the tokens behind it. -/
abbrev Reader (α : Type) := List Token → Except Error (α × List Token)

/-- The character written in two halves. -/
def joinHalves (high low : Nat) : Char :=
  Char.ofNat (0x10000 + (high - 0xd800) * 0x400 + (low - 0xdc00))

/-- The characters of a text, if no half of one stands alone. -/
def textChars : List Piece → Ending → Except Error (List Char)
  | [], ending => ending.check.map fun _ => []
  | .char c :: pieces, ending => (textChars pieces ending).map (c :: ·)
  | .high h :: .low l :: pieces, ending => (textChars pieces ending).map (joinHalves h l :: ·)
  | [.high _], .cut => .error .cut
  | _, _ => .error .malformed

def textOf (pieces : List Piece) (ending : Ending) : Except Error String :=
  (textChars pieces ending).map String.ofList

/-- The error for a value of the wrong type. -/
def invalidType (what wanted : String) : Error :=
  .unwanted s!"invalid type: {what}, expected {wanted}"

/-- The error for tokens that do not begin with what is wanted. -/
def mismatch {α : Type} (wanted : String) : Reader α
  | [] => .error .cut
  | .literal none ending :: _ => do
    ending.check
    throw (invalidType "null" wanted)
  | .literal (some value) ending :: _ => do
    ending.check
    throw (invalidType ("boolean `" ++ toString value ++ "`") wanted)
  | .number numeral ending :: _ => do
    ending.check
    match numeral.number? with
    | none => throw .malformed
    | some n => throw (invalidType n.text wanted)
  | .text pieces ending :: _ => do
    let s ← textOf pieces ending
    throw (invalidType ("string " ++ Text.quoteText s) wanted)
  | .openArray :: _ => .error (invalidType "sequence" wanted)
  | .openObject :: _ => .error (invalidType "map" wanted)
  | _ => .error .malformed

def readBool : Reader Bool
  | .literal (some value) ending :: tokens => do
    ending.check
    return (value, tokens)
  | tokens => mismatch "a boolean" tokens

/-- Reads a whole number below a bound. -/
def readNatural (bound : Nat) (wanted : String) : Reader Nat
  | .number numeral ending :: tokens => do
    ending.check
    match numeral.number? with
    | none => throw .malformed
    | some (.natural n) =>
      if n < bound then return (n, tokens)
      else throw (.unwanted s!"invalid value: {(Number.natural n).text}, expected {wanted}")
    | some (.negative n) =>
      throw (.unwanted s!"invalid value: {(Number.negative n).text}, expected {wanted}")
    | some n => throw (invalidType n.text wanted)
  | tokens => mismatch wanted tokens

def readColon : Reader Unit
  | [] => .error .cut
  | .colon :: tokens => .ok ((), tokens)
  | _ => .error .malformed

def readNull : Reader Unit
  | .literal none ending :: tokens => do
    ending.check
    return ((), tokens)
  | tokens => mismatch "unit" tokens

def readObjectEnd : Reader Unit
  | [] => .error .cut
  | .closeObject :: tokens => .ok ((), tokens)
  | _ => .error .malformed

/-- The choice of a name. -/
def chooseVariant {α : Type} (variants : List (String × α)) (name : String) : Except Error α :=
  match variants.lookup name with
  | some choice => .ok choice
  | none =>
    let names := variants.map fun v => "`" ++ v.1 ++ "`"
    .error (.unwanted ("unknown variant `" ++ name ++ "`, expected " ++
      String.intercalate " or " names))

/-- Reads one of several names, or an object with the name as its only key and null under it. Where
a name should come, every other token is malformed, also one that begins a value. -/
def readVariant {α : Type} (variants : List (String × α)) : Reader α
  | [] => .error .cut
  | .text pieces ending :: tokens => do
    return (← chooseVariant variants (← textOf pieces ending), tokens)
  | .openObject :: .text pieces ending :: tokens => do
    let choice ← chooseVariant variants (← textOf pieces ending)
    let ((), tokens) ← readColon tokens
    let ((), tokens) ← readNull tokens
    let ((), tokens) ← readObjectEnd tokens
    return (choice, tokens)
  | [.openObject] => .error .cut
  | _ => .error .malformed

/-- A member of a record: its name, and how its value changes the record. -/
structure Member (σ : Type) where
  name : String
  read : σ → Reader σ

/-- A member whose value is read and then put into the record. -/
def Member.setting {σ α : Type} (name : String) (read : Reader α) (put : σ → α → σ) : Member σ where
  name := name
  read s tokens := do
    let (value, tokens) ← read tokens
    return (put s value, tokens)

section Record

variable {σ : Type} (members : List (Member σ))

/-- Reads the value of a member whose key was just read, unless the member is among those `seen`. -/
def readMember (name : String) (seen : List String) (s : σ) : Reader σ := fun tokens =>
  match members.find? fun m => m.name = name with
  | none => do
    let ((), tokens) ← readColon tokens
    return (s, ← skipValue tokens)
  | some m =>
    if name ∈ seen then .error (.unwanted ("duplicate field `" ++ name ++ "`"))
    else do
      let ((), tokens) ← readColon tokens
      m.read s tokens

/-- The tokens from the next key on, or nothing at the end of the object. -/
def nextKey (first : Bool) : Reader Bool
  | [] => .error .cut
  | .closeObject :: tokens => .ok (false, tokens)
  | .comma :: tokens =>
    if first then .error .malformed
    else if tokens.isEmpty then .error .cut
    else .ok (true, tokens)
  | tokens => if first then .ok (true, tokens) else .error .malformed

/-- Reads the members of an object that has no more of them than `fuel`. -/
def readMembers : (fuel : Nat) → (first : Bool) → (seen : List String) → σ → Reader σ
  | 0, _, _, _, _ => .error .cut
  | fuel + 1, first, seen, s, tokens =>
    match nextKey first tokens with
    | .error e => .error e
    | .ok (false, tokens) => .ok (s, tokens)
    | .ok (true, .text pieces ending :: tokens) => do
      let name ← textOf pieces ending
      let (s, tokens) ← readMember members name seen s tokens
      readMembers fuel false (name :: seen) s tokens
    | .ok (true, _) => .error .malformed

/-- Reads the members of an array in their order, as many as there are. -/
def readItems : List (Member σ) → (first : Bool) → σ → Reader σ
  | _, _, _, [] => .error .cut
  | _, _, s, .closeArray :: tokens => .ok (s, tokens)
  | [], _, _, _ => .error .malformed
  | m :: rest, true, s, tokens => do
    let (s, tokens) ← m.read s tokens
    readItems rest false s tokens
  | m :: rest, false, s, .comma :: tokens =>
    match tokens with
    | [] => .error .cut
    | .closeArray :: _ => .error .malformed
    | tokens => do
      let (s, tokens) ← m.read s tokens
      readItems rest false s tokens
  | _, _, _, _ => .error .malformed

def readRecord (wanted : String) (s : σ) : Reader σ
  | .openArray :: tokens => readItems members true s tokens
  | .openObject :: tokens => readMembers members (tokens.length + 1) true [] s tokens
  | tokens => mismatch wanted tokens

end Record

end CookingIsa.Json
