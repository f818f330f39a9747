import StackScript.Assembler
import StackScript.Builtins
import StackScript.CommandLine.Files
import StackScript.CommandLine.Options
import StackScript.CommandLine.Session
import StackScript.Compile
import StackScript.CompileError
import StackScript.Console
import StackScript.Decimal
import StackScript.Directive
import StackScript.Instruction
import StackScript.Json.Basic
import StackScript.Json.Printer
import StackScript.Json.Reader
import StackScript.Json.Token
import StackScript.Lowering
import StackScript.Machine
import StackScript.Main
import StackScript.Operation
import StackScript.Position
import StackScript.Program.Basic
import StackScript.Program.Decode
import StackScript.Program.Encode
import StackScript.Program.Literal
import StackScript.Proofs.Actions
import StackScript.Proofs.Agreement
import StackScript.Proofs.Appending
import StackScript.Proofs.Arithmetic
import StackScript.Proofs.Assembly
import StackScript.Proofs.CodeShape
import StackScript.Proofs.CompileLayout
import StackScript.Proofs.ControlFlow
import StackScript.Proofs.DefiniteStores
import StackScript.Proofs.Drafts
import StackScript.Proofs.Evaluator
import StackScript.Proofs.ExpressionCode
import StackScript.Proofs.Fragments
import StackScript.Proofs.Frames
import StackScript.Proofs.JsonText
import StackScript.Proofs.Layout
import StackScript.Proofs.LexicalEffects
import StackScript.Proofs.Listings
import StackScript.Proofs.Literals
import StackScript.Proofs.LiveBindings
import StackScript.Proofs.Lookups
import StackScript.Proofs.LoopFree
import StackScript.Proofs.ProgramFormat
import StackScript.Proofs.Recording
import StackScript.Proofs.Renaming
import StackScript.Proofs.Reuse
import StackScript.Proofs.RoundTrip
import StackScript.Proofs.Runs
import StackScript.Proofs.ScopeRefinement
import StackScript.Proofs.SemanticPreservation
import StackScript.Proofs.Sessions
import StackScript.Proofs.Simulation
import StackScript.Proofs.SlotAccounting
import StackScript.Proofs.Slots
import StackScript.Proofs.Spelling
import StackScript.Proofs.StackSafety
import StackScript.Proofs.StackTyping
import StackScript.Proofs.StaticCheck
import StackScript.Proofs.StepLimits
import StackScript.Proofs.TwoPassAssembly
import StackScript.Proofs.Visits
import StackScript.Proofs.Widths
import StackScript.Recorder
import StackScript.RunError
import StackScript.Scope
import StackScript.SourceText
import StackScript.Value
