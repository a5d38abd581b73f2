import CookingIsa.Config.Basic
import CookingIsa.Json.Reader

/-!
# Reading configurations

A configuration is a JSON record of five sections, each a record of settings. What is not written
has its default. That the registers of a host call exist is checked after the whole text.
-/

namespace CookingIsa.Config

open Json

def arithmeticModes : List (String × ArithmeticMode) :=
  [ArithmeticMode.strict, .lenient].map fun m => (m.name, m)

def unchosenPolicies : List (String × UnchosenPolicy) :=
  [UnchosenPolicy.empty, .fault].map fun p => (p.name, p)

def readWord : Reader Nat := readNatural UInt32.size "u32"

def readSize : Reader Nat := readNatural UInt64.size "usize"

def generalSection : List (Member Config) :=
  [.setting "trace_instructions" readBool fun c b => { c with traceInstructions := b }]

def arithmeticSection : List (Member Config) :=
  [.setting "mode" (readVariant arithmeticModes) fun c mode => { c with arithmetic := mode }]

def sessionSection : List (Member Config) :=
  [.setting "unset_slot" (readVariant unchosenPolicies) fun c p => { c with unchosen := p }]

def memorySection : List (Member Config) :=
  [.setting "base" readWord fun c n => { c with memoryBase := BitVec.ofNat 32 n },
   .setting "size" readWord fun c n => { c with memorySize := n }]

def hostCallSection : List (Member Config) :=
  [.setting "selector_register" readSize fun c n => { c with selectorRegister := n },
   .setting "argument_register" readSize fun c n => { c with argumentRegister := n }]

def sections : List (Member Config) :=
  [⟨"general", readRecord generalSection "struct GeneralConfig"⟩,
   ⟨"arithmetic", readRecord arithmeticSection "struct ArithmeticConfig"⟩,
   ⟨"session", readRecord sessionSection "struct SessionConfig"⟩,
   ⟨"memory", readRecord memorySection "struct MemoryConfig"⟩,
   ⟨"host_call", readRecord hostCallSection "struct HostCallConfig"⟩]

/-- The configuration that a text describes. -/
def ofJson (text : String) : Except Json.Error Config := do
  let (config, rest) ← readRecord sections "struct Config" {} (tokensOf text)
  if rest.isEmpty then
    match config.validate with
    | .error e => throw (.unwanted e.message)
    | .ok () => return config
  else throw .malformed

end CookingIsa.Config
