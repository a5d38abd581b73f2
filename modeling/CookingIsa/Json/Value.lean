import CookingIsa.Word

/-!
# Writing JSON

A value is written on one line, or on many with two blanks more at each level. A text is written
with as few escapes as JSON asks for.
-/

namespace CookingIsa.Json

/-- What is written: the members of an object keep their order. -/
inductive Value where
  | null
  | number (n : Int)
  | text (s : String)
  | array (items : List Value)
  | object (members : List (String × Value))

def escapeChar (c : Char) : List Char :=
  if c = '"' then ['\\', '"']
  else if c = '\\' then ['\\', '\\']
  else if c = '\x08' then ['\\', 'b']
  else if c = '\x0c' then ['\\', 'f']
  else if c = '\n' then ['\\', 'n']
  else if c = '\r' then ['\\', 'r']
  else if c = '\t' then ['\\', 't']
  else if c < ' ' then ['\\', 'u'] ++ Word.hexDigits 4 c.toNat
  else [c]

def quote (s : String) : String := String.ofList ('"' :: s.toList.flatMap escapeChar ++ ['"'])

/-- Parts between brackets on one line. -/
def inline (left : String) (parts : List String) (right : String) : String :=
  left ++ String.intercalate "," parts ++ right

/-- Parts between brackets, each on a line of its own; nothing comes between if there are none. -/
def block (indent left : String) (parts : List String) (right : String) : String :=
  match parts with
  | [] => left ++ right
  | parts =>
    left ++ "\n" ++ String.intercalate ",\n" (parts.map fun p => indent ++ "  " ++ p) ++ "\n" ++
      indent ++ right

namespace Value

mutual

/-- The value on one line. -/
def compact : Value → String
  | null => "null"
  | number n => toString n
  | text s => quote s
  | array items => inline "[" (compactItems items) "]"
  | object members => inline "\x7b" (compactMembers members) "\x7d"

/-- The items of an array, each on one line. -/
def compactItems : List Value → List String
  | [] => []
  | v :: vs => v.compact :: compactItems vs

/-- The members of an object, each on one line. -/
def compactMembers : List (String × Value) → List String
  | [] => []
  | (name, v) :: members => (quote name ++ ":" ++ v.compact) :: compactMembers members

end

mutual

/-- The value on many lines, of which all but the first are indented. -/
def pretty (indent : String) : Value → String
  | null => "null"
  | number n => toString n
  | text s => quote s
  | array items => block indent "[" (prettyItems (indent ++ "  ") items) "]"
  | object members => block indent "\x7b" (prettyMembers (indent ++ "  ") members) "\x7d"

/-- The items of an array, on many lines each. -/
def prettyItems (indent : String) : List Value → List String
  | [] => []
  | v :: vs => v.pretty indent :: prettyItems indent vs

/-- The members of an object, on many lines each. -/
def prettyMembers (indent : String) : List (String × Value) → List String
  | [] => []
  | (name, v) :: members =>
    (quote name ++ ": " ++ v.pretty indent) :: prettyMembers indent members

end

end Value

end CookingIsa.Json
