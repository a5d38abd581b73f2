import CookingIsa.Json.Error
import CookingIsa.Text.Numeral

/-!
# JSON tokens

A text is cut into tokens without regard to where they stand. A token that is broken, because the
text ends in it or goes on wrongly, is the last: what follows it is never looked at.
-/

namespace CookingIsa.Json

/-- How a token ends. -/
inductive Ending where
  | whole
  /-- The text ends in the token. -/
  | cut
  /-- A character is wrong in the token. -/
  | malformed
deriving DecidableEq, Repr

/-- The error that an ending is, if it is one. -/
def Ending.check : Ending → Except Error Unit
  | whole => .ok ()
  | cut => .error .cut
  | malformed => .error .malformed

/-- A part of a text: a character, or half of one that was written in two halves. -/
inductive Piece where
  | char (c : Char)
  | high (unit : Nat)
  | low (unit : Nat)
deriving DecidableEq, Repr

/-- A number as it is written. There are digits in the fraction exactly if there is a point. -/
structure Numeral where
  negative : Bool
  whole : List Char
  fraction : List Char
  exponent : Option (Bool × List Char)
deriving DecidableEq, Repr

/-- The tokens. A literal is a truth value or null. -/
inductive Token where
  | openObject
  | closeObject
  | openArray
  | closeArray
  | colon
  | comma
  | literal (value : Option Bool) (ending : Ending)
  | number (numeral : Numeral) (ending : Ending)
  | text (pieces : List Piece) (ending : Ending)
  /-- A character with which no token begins. -/
  | stray
deriving DecidableEq, Repr

/-- Whether other tokens can follow. -/
def Token.isWhole : Token → Bool
  | literal _ ending => ending = .whole
  | number _ ending => ending = .whole
  | text _ ending => ending = .whole
  | stray => false
  | _ => true

def isSpace (c : Char) : Bool := c = ' ' || c = '\n' || c = '\t' || c = '\r'

/-- The ending of a token in which something else should come than `rest`. -/
def brokenBy (rest : List Char) : Ending := if rest.isEmpty then .cut else .malformed

/-- Scans the rest of a literal, and gives how it ends and what follows. -/
def scanWord : (word : List Char) → List Char → Ending × List Char
  | [], cs => (.whole, cs)
  | _ :: _, [] => (.cut, [])
  | w :: word, c :: cs => if c = w then scanWord word cs else (.malformed, cs)

def escape? : Char → Option Char
  | '"' => some '"'
  | '\\' => some '\\'
  | '/' => some '/'
  | 'b' => some '\x08'
  | 'f' => some '\x0c'
  | 'n' => some '\n'
  | 'r' => some '\r'
  | 't' => some '\t'
  | _ => none

/-- The number of hexadecimal digits, the highest first. -/
def hexNumber? (digits : List Char) : Option Nat :=
  digits.foldlM (fun n c => (Text.digitValue? 16 c).map fun d => 16 * n + d) 0

/-- The part of a text that a number of 16 bits stands for. -/
def Piece.ofUnit (unit : Nat) : Piece :=
  if 0xd800 ≤ unit ∧ unit < 0xdc00 then .high unit
  else if 0xdc00 ≤ unit ∧ unit < 0xe000 then .low unit
  else .char (Char.ofNat unit)

/-- The number of bytes of a text in UTF-8. -/
def byteLength : List Char → Nat
  | [] => 0
  | c :: cs => c.utf8Size + byteLength cs

/-- Scans a text behind its opening quote, with the parts before in reverse. Four bytes are taken
for a number before they are looked at. -/
def scanText : List Char → (pieces : List Piece) → Token × List Char
  | [], pieces => (.text pieces.reverse .cut, [])
  | '"' :: cs, pieces => (.text pieces.reverse .whole, cs)
  | ['\\'], pieces => (.text pieces.reverse .cut, [])
  | '\\' :: 'u' :: a :: b :: c :: d :: cs, pieces =>
    match hexNumber? [a, b, c, d] with
    | some unit => scanText cs (.ofUnit unit :: pieces)
    | none => (.text pieces.reverse .malformed, cs)
  | '\\' :: 'u' :: cs, pieces =>
    (.text pieces.reverse (if byteLength cs < 4 then .cut else .malformed), [])
  | '\\' :: e :: cs, pieces =>
    match escape? e with
    | some c => scanText cs (.char c :: pieces)
    | none => (.text pieces.reverse .malformed, cs)
  | c :: cs, pieces =>
    if c < ' ' then (.text pieces.reverse .malformed, cs) else scanText cs (.char c :: pieces)

/-- The digits at the front of a text, and what follows them. -/
def scanDigits (cs : List Char) : List Char × List Char := cs.span Char.isDigit

/-- Scans the exponent of a number, if it has one. -/
def scanExponent (n : Numeral) (cs : List Char) : Token × List Char :=
  match cs with
  | 'e' :: cs => exponent cs
  | 'E' :: cs => exponent cs
  | cs => (.number n .whole, cs)
where
  /-- Scans the sign and the digits. -/
  exponent (cs : List Char) : Token × List Char :=
    let (negative, cs) := match cs with
      | '+' :: cs => (false, cs)
      | '-' :: cs => (true, cs)
      | cs => (false, cs)
    match scanDigits cs with
    | ([], rest) => (.number n (brokenBy rest), rest)
    | (digits, rest) => (.number { n with exponent := some (negative, digits) } .whole, rest)

/-- Scans the fraction and the exponent of a number. -/
def scanFraction (n : Numeral) (cs : List Char) : Token × List Char :=
  match cs with
  | '.' :: cs =>
    match scanDigits cs with
    | ([], rest) => (.number n (brokenBy rest), rest)
    | (fraction, rest) => scanExponent { n with fraction } rest
  | cs => scanExponent n cs

/-- Scans a number behind its sign. A zero in front of other digits is wrong. -/
def scanNumber (negative : Bool) (cs : List Char) : Token × List Char :=
  match scanDigits cs with
  | ([], rest) => (.number ⟨negative, [], [], none⟩ (brokenBy rest), rest)
  | ('0' :: d :: ds, rest) => (.number ⟨negative, '0' :: d :: ds, [], none⟩ .malformed, rest)
  | (whole, rest) => scanFraction ⟨negative, whole, [], none⟩ rest

def scanToken (c : Char) (cs : List Char) : Token × List Char :=
  match c with
  | '\x7b' => (.openObject, cs)
  | '\x7d' => (.closeObject, cs)
  | '[' => (.openArray, cs)
  | ']' => (.closeArray, cs)
  | ':' => (.colon, cs)
  | ',' => (.comma, cs)
  | '"' => scanText cs []
  | '-' => scanNumber true cs
  | 'n' => literal none "ull"
  | 't' => literal (some true) "rue"
  | 'f' => literal (some false) "alse"
  | c => if c.isDigit then scanNumber false (c :: cs) else (.stray, cs)
where
  /-- Scans the rest of a literal. -/
  literal (value : Option Bool) (word : String) : Token × List Char :=
    let (ending, rest) := scanWord word.toList cs
    (.literal value ending, rest)

/-- The tokens of a text that has no more characters than `fuel`, behind those before, which are in
reverse. -/
def scanTokens : (fuel : Nat) → List Char → (tokens : List Token) → List Token
  | 0, _, tokens => tokens.reverse
  | _ + 1, [], tokens => tokens.reverse
  | fuel + 1, c :: cs, tokens =>
    if isSpace c then scanTokens fuel cs tokens
    else
      let (token, rest) := scanToken c cs
      if token.isWhole then scanTokens fuel rest (token :: tokens)
      else (token :: tokens).reverse

def tokensOf (text : String) : List Token := scanTokens text.toList.length text.toList []

end CookingIsa.Json
