/-!
# Invocations

The arguments of the command line name a command with its options and words. Options and words may
mix; behind `--` everything is a word. The operands of an instruction may look like options, and
from the first operand on nothing else is looked for.
-/

namespace CookingIsa.CommandLine

/-- What the program is asked to do. -/
inductive Command where
  | list (json : Bool)
  | decode (words : List String)
  | encode (mnemonic : String) (operands : List String)
  | exec (config : Option String) (assignments : List String) (json : Bool) (words : List String)
deriving DecidableEq, Repr

/-- What the arguments come to. -/
inductive Invocation where
  | command (c : Command)
  | help
  | version
  /-- The arguments make no sense. -/
  | misuse
deriving DecidableEq, Repr

/-- An argument by its looks. -/
inductive Argument where
  | terminator
  /-- Two dashes and a name, perhaps with a value behind an equals sign. -/
  | long (name : String) (value : Option String)
  /-- One dash and letters. -/
  | short (first : Char) (rest : List Char)
  /-- Anything else, a single dash included. -/
  | plain
deriving DecidableEq, Repr

/-- The looks of an argument. -/
def Argument.ofText (text : String) : Argument :=
  match text.toList with
  | ['-', '-'] => terminator
  | '-' :: '-' :: cs =>
    match cs.span fun c => c ≠ '=' with
    | (name, []) => long (String.ofList name) none
    | (name, _ :: value) => long (String.ofList name) (some (String.ofList value))
  | '-' :: c :: cs => short c cs
  | _ => plain

def Argument.isHelp : Argument → Bool
  | long name value => name = "help" && value.isNone
  | short first _ => first = 'h'
  | _ => false

namespace Invocation

def ofList (json : Bool) : List String → Invocation
  | [] => command (.list json)
  | arg :: args =>
    match Argument.ofText arg with
    | .terminator => if args.isEmpty then command (.list json) else misuse
    | .long "json" none => if json then misuse else ofList true args
    | looks => if looks.isHelp then help else misuse

/-- A command with words, of which there must be one at least. -/
def withWords (words : List String) (c : List String → Command) : Invocation :=
  if words.isEmpty then misuse else command (c words)

def ofDecode (words : List String) : List String → Invocation
  | [] => withWords words .decode
  | arg :: args =>
    match Argument.ofText arg with
    | .terminator => withWords (words ++ args) .decode
    | .plain => ofDecode (words ++ [arg]) args
    | looks => if looks.isHelp then help else misuse

/-- The arguments of `encode` behind the name of the instruction. -/
def ofOperands (mnemonic : String) : List String → Invocation
  | [] => command (.encode mnemonic [])
  | arg :: args =>
    match Argument.ofText arg with
    | .terminator => command (.encode mnemonic args)
    | .long "help" none => help
    | .long "help" (some _) => misuse
    | .short first rest =>
      if (first :: rest).all fun c => c = 'h' then help
      else command (.encode mnemonic (arg :: args))
    | _ => command (.encode mnemonic (arg :: args))

def ofEncode : List String → Invocation
  | [] => misuse
  | arg :: args =>
    match Argument.ofText arg with
    | .terminator =>
      match args with
      | [] => misuse
      | mnemonic :: operands => command (.encode mnemonic operands)
    | .plain => ofOperands arg args
    | looks => if looks.isHelp then help else misuse

/-- The options and words of `exec` so far. -/
structure Execution where
  config : Option String := none
  assignments : List String := []
  json : Bool := false
  words : List String := []

namespace Execution

def finish (e : Execution) : Invocation :=
  withWords e.words (.exec e.config e.assignments e.json)

/-- Sets the configuration file, which may be set once. -/
def setConfig? (e : Execution) (path : String) : Option Execution :=
  match e.config with
  | none => some { e with config := some path }
  | some _ => none

def assign? (e : Execution) (assignment : String) : Option Execution :=
  some { e with assignments := e.assignments ++ [assignment] }

/-- Asks for JSON, which may be done once. -/
def setJson? (e : Execution) : Option Execution :=
  if e.json then none else some { e with json := true }

end Execution

/-- The value behind the letter of a short option, if there is one. -/
def attached : List Char → Option String
  | [] => none
  | '=' :: cs => some (String.ofList cs)
  | cs => some (String.ofList cs)

/-- An option of `exec` that takes a value: its value if that is attached, and what it does. -/
def valued? : Argument → Option (Option String × (Execution → String → Option Execution))
  | .long "config" value => some (value, Execution.setConfig?)
  | .long "set" value => some (value, Execution.assign?)
  | .short 'c' rest => some (attached rest, Execution.setConfig?)
  | _ => none

def ofExec (e : Execution) : List String → Invocation
  | [] => e.finish
  | arg :: args =>
    let looks := Argument.ofText arg
    match valued? looks, args with
    | some (some value, set), args =>
      match set e value with
      | some e => ofExec e args
      | none => misuse
    | some (none, set), value :: args =>
      match Argument.ofText value, set e value with
      | .plain, some e => ofExec e args
      | _, _ => misuse
    | some (none, _), [] => misuse
    | none, args =>
      match looks with
      | .terminator => Execution.finish { e with words := e.words ++ args }
      | .plain => ofExec { e with words := e.words ++ [arg] } args
      | .long "json" none =>
        match e.setJson? with
        | some e => ofExec e args
        | none => misuse
      | looks => if looks.isHelp then help else misuse

def ofHelp : List String → Invocation
  | [] => help
  | [name] => if name ∈ ["list", "decode", "encode", "exec", "help"] then help else misuse
  | _ => misuse

/-- What the arguments of the program come to. -/
def ofArguments : List String → Invocation
  | [] => misuse
  | "list" :: args => ofList false args
  | "decode" :: args => ofDecode [] args
  | "encode" :: args => ofEncode args
  | "exec" :: args => ofExec {} args
  | "help" :: args => ofHelp args
  | arg :: _ =>
    match Argument.ofText arg with
    | .long "version" none => version
    | .short 'V' _ => version
    | looks => if looks.isHelp then help else misuse

end Invocation

end CookingIsa.CommandLine
