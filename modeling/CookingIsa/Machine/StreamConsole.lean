import CookingIsa.Machine.Console

/-!
# The stream console

The input is a stream of bytes, cut into lines after each line feed. A line is given without the
carriage returns and line feeds at its end. Prompts and lines go to one output text.
-/

namespace CookingIsa

/-- A console between a stream of bytes and a text. -/
structure StreamConsole where
  input : List UInt8
  output : String
deriving DecidableEq

namespace StreamConsole

def ofInput (input : List UInt8) : StreamConsole := ⟨input, ""⟩

/-- The bytes up to the first line feed, which belongs to them, and the rest. -/
def cutLine (bytes : List UInt8) : List UInt8 × List UInt8 :=
  let (line, rest) := bytes.span fun b => b ≠ 10
  (line ++ rest.take 1, rest.drop 1)

/-- A text without the line ends behind it. -/
def trimLineEnds (line : String) : String :=
  String.ofList (line.toList.reverse.dropWhile fun c => c = '\r' ∨ c = '\n').reverse

/-- Shows the prompt and gives the next line, if there is one and it is text. -/
def readLine (c : StreamConsole) (prompt : String) : Except ConsoleError String × StreamConsole :=
  let (line, rest) := cutLine c.input
  let next : StreamConsole := ⟨rest, c.output ++ prompt⟩
  if line.isEmpty then (.error .endOfStream, next)
  else
    match String.fromUTF8? ⟨line.toArray⟩ with
    | none => (.error .invalidText, next)
    | some text => (.ok (trimLineEnds text), next)

def writeLine (c : StreamConsole) (line : String) : Except ConsoleError Unit × StreamConsole :=
  (.ok (), { c with output := c.output ++ line ++ "\n" })

instance : Console StreamConsole where
  readLine := readLine
  writeLine := writeLine

end StreamConsole

end CookingIsa
