import CookingIsa.Fault

/-!
# Consoles

A console shows a prompt and reads a line, or writes a line. One console has its input lines given
beforehand and keeps what it shows, and another reads a stream of bytes as it comes.
-/

namespace CookingIsa

/-- What can be done with a console. Reading and writing change it even if they fail. -/
class Console (κ : Type) where
  readLine : κ → (prompt : String) → Except ConsoleError String × κ
  writeLine : κ → (line : String) → Except ConsoleError Unit × κ

/-- A console whose input lines are given beforehand. -/
structure ScriptedConsole where
  input : List String
  prompts : List String
  output : List String
deriving DecidableEq, Repr

namespace ScriptedConsole

def ofInput (lines : List String) : ScriptedConsole := ⟨lines, [], []⟩

def push (c : ScriptedConsole) (line : String) : ScriptedConsole :=
  { c with input := c.input ++ [line] }

/-- Shows a prompt, whether or not a line is left to read. -/
def readLine (c : ScriptedConsole) (prompt : String) :
    Except ConsoleError String × ScriptedConsole :=
  match c.input with
  | [] => (.error .exhausted, { c with prompts := c.prompts ++ [prompt] })
  | line :: input => (.ok line, { c with input, prompts := c.prompts ++ [prompt] })

def writeLine (c : ScriptedConsole) (line : String) : Except ConsoleError Unit × ScriptedConsole :=
  (.ok (), { c with output := c.output ++ [line] })

instance : Console ScriptedConsole where
  readLine := readLine
  writeLine := writeLine

end ScriptedConsole

/-- A console that may be closed. A closed one neither reads nor shows anything. -/
structure Closable (κ : Type) where
  inner : κ
  closed : Bool

instance {κ : Type} [Console κ] : Console (Closable κ) where
  readLine c prompt :=
    if c.closed then (.error .closed, c)
    else
      let (line, inner) := Console.readLine c.inner prompt
      (line, { c with inner })
  writeLine c line :=
    if c.closed then (.error .closed, c)
    else
      let (written, inner) := Console.writeLine c.inner line
      (written, { c with inner })

end CookingIsa
