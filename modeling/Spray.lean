import Spray.Proofs.Store
import Spray.Proofs.SetMemory
import Spray.Proofs.UserBreakpoints
import Spray.Proofs.Transparency
import Spray.Proofs.PassedOver
import Spray.Proofs.Search
import Spray.Proofs.Subprog
import Spray.Proofs.Lines
import Spray.Proofs.Variables
import Spray.Proofs.Tokenize
import Spray.Proofs.Symbols
import Spray.Proofs.LineIndex
import Spray.Proofs.FunctionLines
import Spray.Proofs.SetVariable
import Spray.Proofs.StepOverBreakpoints
import Spray.Proofs.PrintSource
import Spray.Proofs.StepOver
import Spray.Proofs.DeathReported
import Spray.Proofs.Sigtrap
import Spray.Proofs.Numbers
import Spray.Proofs.SignedValues
import Spray.Proofs.Dereference
import Spray.Proofs.TypeChains
import Spray.Proofs.Substitution
import Spray.Proofs.SearchCalls
import Spray.Proofs.SingleStep
import Spray.Proofs.StepLine
import Spray.Proofs.StepOut
import Spray.Proofs.LoadAddress
import Spray.Proofs.Args
import Spray.Proofs.Paths
import Spray.Proofs.Backtrace
import Spray.Proofs.Locations
import Spray.Proofs.CommandGrammar
import Spray.Proofs.TypedAddresses
import Spray.Proofs.InitDebugInfo
import Spray.Proofs.ElfSymbols
import Spray.Proofs.Eval
import Spray.Proofs.Comments
import Spray.Proofs.TypesEnv
import Spray.Proofs.Ideal
import Spray.Proofs.Reading
import Spray.Proofs.Lookups
import Spray.Proofs.Looking
import Spray.Proofs.Editing
import Spray.Proofs.PrintsSet
import Spray.Proofs.Requests
import Spray.Proofs.Sessions
import Spray.Proofs.SourcePrinting
import Spray.Proofs.SymbolBuf
