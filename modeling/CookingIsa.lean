import CookingIsa.Arithmetic
import CookingIsa.Basket
import CookingIsa.ChefAssembly
import CookingIsa.CommandLine.Invocation
import CookingIsa.CommandLine.Literal
import CookingIsa.CommandLine.Program
import CookingIsa.CommandLine.Report
import CookingIsa.Config.Basic
import CookingIsa.Config.File
import CookingIsa.Config.Reader
import CookingIsa.Decimal.Binary64
import CookingIsa.Decimal.Shortest
import CookingIsa.Event
import CookingIsa.Execution
import CookingIsa.Fault
import CookingIsa.Field
import CookingIsa.Ingredient
import CookingIsa.Instruction.Basic
import CookingIsa.Instruction.Listing
import CookingIsa.InstructionSet.Basic
import CookingIsa.InstructionSet.Decoding
import CookingIsa.Json.Error
import CookingIsa.Json.Number
import CookingIsa.Json.Reader
import CookingIsa.Json.Skip
import CookingIsa.Json.Token
import CookingIsa.Json.Value
import CookingIsa.Layout.Basic
import CookingIsa.Layout.Operands
import CookingIsa.Machine.Basic
import CookingIsa.Machine.Console
import CookingIsa.Machine.Memory
import CookingIsa.Machine.RegisterFile
import CookingIsa.Machine.StreamConsole
import CookingIsa.Main
import CookingIsa.Operands
import CookingIsa.Operation
import CookingIsa.Pattern.Basic
import CookingIsa.Pattern.Encoding
import CookingIsa.Pattern.Parser
import CookingIsa.Policy
import CookingIsa.Proofs.Arithmetic
import CookingIsa.Proofs.Arrangement
import CookingIsa.Proofs.ChefTable
import CookingIsa.Proofs.Collecting
import CookingIsa.Proofs.Computing
import CookingIsa.Proofs.ConfigText
import CookingIsa.Proofs.Disassembly
import CookingIsa.Proofs.Effect
import CookingIsa.Proofs.Encoding
import CookingIsa.Proofs.Except
import CookingIsa.Proofs.Extension
import CookingIsa.Proofs.FaultKinds
import CookingIsa.Proofs.Field
import CookingIsa.Proofs.FieldDispatch
import CookingIsa.Proofs.FirstFailure
import CookingIsa.Proofs.FixedFields
import CookingIsa.Proofs.Frame
import CookingIsa.Proofs.InBounds
import CookingIsa.Proofs.Independence
import CookingIsa.Proofs.InstructionParts
import CookingIsa.Proofs.Json.Lexeme
import CookingIsa.Proofs.Json.Reading
import CookingIsa.Proofs.Json.Record
import CookingIsa.Proofs.Json.Skipping
import CookingIsa.Proofs.Json.Tree
import CookingIsa.Proofs.Json.Writing
import CookingIsa.Proofs.LatestStore
import CookingIsa.Proofs.Layout
import CookingIsa.Proofs.Lenient
import CookingIsa.Proofs.Literal
import CookingIsa.Proofs.Misreading
import CookingIsa.Proofs.Numeral
import CookingIsa.Proofs.Overflow
import CookingIsa.Proofs.Pattern
import CookingIsa.Proofs.PatternMeaning
import CookingIsa.Proofs.PatternRoundTrip
import CookingIsa.Proofs.Presenting
import CookingIsa.Proofs.Records
import CookingIsa.Proofs.RegisterReference
import CookingIsa.Proofs.Registration
import CookingIsa.Proofs.RegistrationOrder
import CookingIsa.Proofs.Report
import CookingIsa.Proofs.RoundTrip
import CookingIsa.Proofs.Run
import CookingIsa.Proofs.Settings
import CookingIsa.Proofs.SharedConsole
import CookingIsa.Proofs.SignedLiteral
import CookingIsa.Proofs.Spelling
import CookingIsa.Proofs.StreamLines
import CookingIsa.Proofs.Task
import CookingIsa.Proofs.Tracing
import CookingIsa.Proofs.Word
import CookingIsa.Proofs.WordMap
import CookingIsa.Proofs.WrittenPattern
import CookingIsa.Register
import CookingIsa.Session
import CookingIsa.SetupError
import CookingIsa.Text.Blank
import CookingIsa.Text.GraphemeExtend
import CookingIsa.Text.Numeral
import CookingIsa.Text.Quoted
import CookingIsa.Text.Unprintable
import CookingIsa.Word
import CookingIsa.Word.Fixed
