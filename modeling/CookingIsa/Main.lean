import CookingIsa.CommandLine.Program

/-!
# The command line program

Reads what the invocation asks for, runs it, and prints what it leaves. The input is read to its end
before the first word is executed.
-/

namespace CookingIsa.CommandLine

def readFile? (path : String) : IO (Option (List UInt8)) := do
  try
    return some (← IO.FS.readBinFile path).toList
  catch _ => return none

/-- The bytes of a stream up to its end, behind those before. -/
partial def readToEnd (stream : IO.FS.Stream) (before : ByteArray) : IO ByteArray := do
  let bytes ← stream.read 65536
  if bytes.isEmpty then return before
  readToEnd stream (before ++ bytes)

def Invocation.perform (i : Invocation) : IO UInt32 := do
  let content ← match i.configPath? with
    | some path => readFile? path
    | none => pure none
  let input ← if i.readsInput then readToEnd (← IO.getStdin) .empty else pure .empty
  let output := i.run content input.toList
  IO.print output.stdout
  IO.eprint output.diagnostics
  return UInt32.ofNat output.code

end CookingIsa.CommandLine

def main (args : List String) : IO UInt32 :=
  (CookingIsa.CommandLine.Invocation.ofArguments args).perform
