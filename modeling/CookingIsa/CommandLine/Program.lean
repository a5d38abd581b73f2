import CookingIsa.CommandLine.Invocation
import CookingIsa.CommandLine.Literal
import CookingIsa.CommandLine.Report
import CookingIsa.Config.File
import CookingIsa.Machine.StreamConsole
import CookingIsa.Session

/-!
# The program

What a command prints and how it ends, given the configuration file and the input it may read. All
arguments are understood before the first word is executed, and execution ends with the first word
that fails. A number that overflows while an argument is read ends the program with a code of its
own.
-/

namespace CookingIsa.CommandLine

/-- What the program leaves behind. -/
structure Output where
  code : Nat
  stdout : String
  stderr : String
  /-- The events that are shown on stderr in front of the text there: unless an observer asks for
  more, those that are warnings. -/
  warnings : List Event

/-- Why a command ends before it has done anything. -/
inductive Failure where
  | refused (message : String)
  /-- A number overflows while an argument is read, and the program breaks off. -/
  | overflow
deriving DecidableEq, Repr

/-- What becomes of a command when one of its arguments is no integer. -/
def Failure.ofInteger (message : String) : IntegerError → Failure
  | .refused => refused message
  | .overflow => overflow

namespace Output

def success (stdout : String) : Output := ⟨0, stdout, "", []⟩

def ofFailure : Failure → Output
  | .refused message => ⟨1, "", line s!"Error: {message}", []⟩
  | .overflow => ⟨101, "", line "attempt to negate with overflow", []⟩

/-- All that is printed to stderr. -/
def diagnostics (o : Output) : String := String.join (o.warnings.map eventLine) ++ o.stderr

end Output

def versionText : String := "chefsim 0.3.0"

/-- What is printed for help and for arguments that make no sense. The wording is that of this
project: it stands for what a library for arguments would print, and no statement rests on it. -/
def helpText : String :=
  lines
    ["List, decode, encode and execute Chef Assembly words.", "",
     "  chefsim list [--json]",
     "  chefsim decode WORD...",
     "  chefsim encode MNEMONIC [OPERAND...]",
     "  chefsim exec [--config FILE] [--set REG=VAL]... [--json] WORD..."]

def readWords (texts : List String) : Except Failure (List Word) :=
  texts.mapM fun text =>
    (word text).mapError fun e => .refused ("invalid word `" ++ text ++ s!"`: {e.message}")

def readOperands (texts : List String) : Except Failure (List Int) :=
  texts.mapM fun text =>
    (operand text).mapError (.ofInteger ("invalid operand `" ++ text ++ "`"))

/-- The registers after one more assignment. -/
def assign (r : RegisterFile) (text : String) : Except Failure RegisterFile := do
  let message := "invalid register assignment `" ++ text ++ "`"
  let (n, v) ← (assignment text).mapError (.ofInteger message)
  match r.set? n (BitVec.ofInt 32 v) with
  | some r' => return r'
  | none => throw (.refused message)

/-- The registers after all assignments in order. -/
def assignAll (r : RegisterFile) (texts : List String) : Except Failure RegisterFile :=
  texts.foldlM assign r

def chefAssembly : Except Failure InstructionSet :=
  ChefAssembly.instructionSet.mapError fun e => .refused e.message

def runList (json : Bool) : Except Failure Output := do
  let s ← chefAssembly
  return .success (if json then listingReport s else tableReport ChefAssembly.name s)

/-- Prints words. It ends with code 1, but without a message, if some match no instruction. -/
def runDecode (texts : List String) : Except Failure Output := do
  let s ← chefAssembly
  let words ← readWords texts
  let code := if words.all fun w => (s.lookup? w).isSome then 0 else 1
  return ⟨code, String.join (words.map (wordReport s)), "", []⟩

def runEncode (mnemonic : String) (operands : List String) : Except Failure Output := do
  let s ← chefAssembly
  match s.find? mnemonic with
  | none => throw (.refused ("unknown mnemonic `" ++ mnemonic ++ "`"))
  | some i =>
    let values ← readOperands operands
    match i.encode values with
    | .ok w => return .success (line w.text)
    | .error e =>
      throw (.refused ("cannot encode `" ++ i.name ++ s!"`: {e.message} (syntax: {i.usage})"))

/-- How the execution of words ends: the word that failed, if one did, the machine, and all events
on the way. -/
structure Execution (κ : Type) where
  failure : Option (Word × StepError)
  machine : Machine κ
  events : List Event

namespace Execution

/-- What is told of a word that was executed, beside the events of its step. -/
def told (w : Word) : Control → List Event
  | .next => []
  | .branch target => [.branchTaken w target]

/-- What is printed once words were executed: the output of the console and the state of the
machine, and on stderr the word that failed. -/
def output (json : Bool) (done : Execution StreamConsole) : Output :=
  let report := if json then stateListing done.machine else stateReport done.machine
  let stdout := done.machine.console.output ++ report
  let warnings := Event.warnings done.events
  match done.failure with
  | none => ⟨0, stdout, "", warnings⟩
  | some (w, e) => ⟨1, stdout, line s!"[!] {w.text}: {e.message}", warnings⟩

end Execution

/-- Executes words in order up to the first that fails. A branch is recorded and told of, but not
taken. -/
def executeWords {κ : Type} [Console κ] (s : Session) (m : Machine κ) : List Word → Execution κ
  | [] => ⟨none, m, []⟩
  | w :: words =>
    let done := s.step w m
    match done.result with
    | .ok c =>
      let rest := executeWords (s.withBasket done.basket) done.machine words
      { rest with events := done.events ++ (Execution.told w c ++ rest.events) }
    | .error e => ⟨some (w, e), done.machine, done.events⟩

/-- Executes words on a fresh machine and prints its state. -/
def runExec (config : Config) (assignments : List String) (json : Bool) (texts : List String)
    (input : List UInt8) : Except Failure Output := do
  let s ← (Session.createChef config).mapError fun e =>
    .refused s!"instruction table rejected: {e.message}"
  let start : Machine StreamConsole :=
    .fresh config.memoryBase config.memorySize (.ofInput input)
  let registers ← assignAll start.registers assignments
  let words ← readWords texts
  return (executeWords s { start with registers } words).output json

/-- The configuration file that an invocation reads, if it reads one. -/
def Invocation.configPath? : Invocation → Option String
  | command (.exec config _ _ _) => config
  | _ => none

/-- Whether an invocation may read its input. -/
def Invocation.readsInput : Invocation → Bool
  | command (.exec _ _ _ _) => true
  | _ => false

/-- The configuration of an invocation: that of the file, or the default if there is no path. -/
def configOf (path : Option String) (content : Option (List UInt8)) : Except Failure Config :=
  match path with
  | none => .ok {}
  | some path => (Config.ofFile path content).mapError fun e => .refused e.message

/-- Runs a command, given the content of its configuration file and its input. -/
def Command.run (c : Command) (content : Option (List UInt8)) (input : List UInt8) :
    Except Failure Output :=
  match c with
  | list json => runList json
  | decode words => runDecode words
  | encode mnemonic operands => runEncode mnemonic operands
  | exec path assignments json words => do
    runExec (← configOf path content) assignments json words input

/-- What an invocation leaves behind. The help stands for all that a library for arguments would
print, a complaint about arguments that make no sense included. -/
def Invocation.run (i : Invocation) (content : Option (List UInt8)) (input : List UInt8) :
    Output :=
  match i with
  | command c =>
    match c.run content input with
    | .ok output => output
    | .error failure => .ofFailure failure
  | help => .success helpText
  | version => .success (line versionText)
  | misuse => ⟨2, "", helpText, []⟩

end CookingIsa.CommandLine
