import CookingIsa.Text.GraphemeExtend
import CookingIsa.Text.Unprintable

/-!
# Quoted text

Messages show foreign text between quotes and with escapes, so that one sees where it ends and what
is in it: the mark itself and the backslash are escaped, the usual control characters have short
names, and whatever would not be seen as a character of its own is written by number.
-/

namespace CookingIsa.Text

/-- The hexadecimal digits of a number, lowercase and without leading zeros. -/
def hexNumeral (n : Nat) : List Char := Nat.toDigits 16 n

/-- One character as it stands between two marks. -/
def escapeChar (mark c : Char) : List Char :=
  if c = '\x00' then ['\\', '0']
  else if c = '\t' then ['\\', 't']
  else if c = '\r' then ['\\', 'r']
  else if c = '\n' then ['\\', 'n']
  else if c = '\\' ∨ c = mark then ['\\', c]
  else if isGraphemeExtend c || isUnprintable c then
    ['\\', 'u', '\x7b'] ++ hexNumeral c.toNat ++ ['\x7d']
  else [c]

/-- A character in single quotes. -/
def quoteChar (c : Char) : String :=
  String.ofList ('\'' :: escapeChar '\'' c ++ ['\''])

def quoteText (s : String) : String :=
  String.ofList ('"' :: s.toList.flatMap (escapeChar '"') ++ ['"'])

end CookingIsa.Text
