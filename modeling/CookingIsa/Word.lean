/-!
# Words

The machine works on 32-bit words. A word is a pattern of bits; read as a number it is signed, and
`Word.signedLow` is the signed reading of its low bits alone.
-/

namespace CookingIsa

/-- A 32-bit machine word. -/
abbrev Word := BitVec 32

namespace Word

abbrev bits : Nat := 32

/-- The word whose low `width` bits are set; every width of 32 or more sets them all. -/
def lowMask (width : Nat) : Word :=
  if bits ≤ width then BitVec.allOnes 32 else (1#32 <<< width) - 1#32

/-- The low `width` bits as a signed number, by shifting them to the top of the word and back. -/
def signedLow (w : Word) (width : Nat) : Int :=
  if width = 0 then 0
  else if bits ≤ width then w.toInt
  else ((w <<< (bits - width)).sshiftRight (bits - width)).toInt

/-- The lowercase hexadecimal digits of `n`, exactly `count` of them. -/
def hexDigits : (count : Nat) → (n : Nat) → List Char
  | 0, _ => []
  | count + 1, n => hexDigits count (n / 16) ++ [Nat.digitChar (n % 16)]

/-- The last `count` hexadecimal digits of a word, marked with `0x`. -/
def hexText (count : Nat) (w : Word) : String :=
  String.ofList ('0' :: 'x' :: hexDigits count w.toNat)

/-- A whole word in hexadecimal: `0x` and eight digits. -/
def text (w : Word) : String := w.hexText 8

@[simp] theorem length_hexDigits (count n : Nat) : (hexDigits count n).length = count := by
  induction count generalizing n with
  | zero => rfl
  | succ count ih => simp [hexDigits, ih]

end Word

end CookingIsa
