import Lox.Lexeme.Extent
import Lox.Syntax.Outline
import Lox.Syntax.Uses
import Lox.Main
import Lox.Proofs.Grammar.Soundness.Statement
import Lox.Proofs.Grammar.Completeness.Expression
import Lox.Proofs.Grammar.Completeness.Statement
import Lox.Proofs.Grammar.Exactness
import Lox.Proofs.Binding.Unbound
import Lox.Proofs.Binding.Bound
import Lox.Proofs.Lexical.Machine
import Lox.Proofs.Binding.Globals
import Lox.Proofs.Binding.Overlay
import Lox.Proofs.Lexical.Breach
import Lox.Proofs.Rejection
import Lox.Proofs.Reports
import Lox.Proofs.Running.CallLimit
import Lox.Proofs.Running.Jumps
import Lox.Proofs.Receiver.Ledger
import Lox.Proofs.Receiver.Standing
import Lox.Proofs.Receiver.Record
import Lox.Proofs.Receiver.Traced
import Lox.Proofs.Running.Calls
import Lox.Proofs.Running.Limited
import Lox.Proofs.Running.Output
import Lox.Proofs.Running.HigherLimit
import Lox.Proofs.Receiver.Classes
import Lox.Proofs.Places.Tree
import Lox.Proofs.Places.World
import Lox.Proofs.Places.Step
import Lox.Proofs.Places.Run
import Lox.Proofs.Places.Binding
import Lox.Proofs.Places.Grammar
import Lox.Proofs.Places.Joined
import Lox.Proofs.Lexeme.Covered
import Lox.Proofs.Places.Stretches
import Lox.Proofs.Grammar.Balance
import Lox.Proofs.Prompt.Brackets
import Lox.Proofs.Grammar.Complaints
import Lox.Proofs.Places.Own
import Lox.Proofs.Places.Lines
import Lox.Proofs.Places.Excerpt
import Lox.Proofs.Places.Entries
import Lox.Proofs.Staged
import Lox.Proofs.Layout
import Lox.Proofs.Renaming.Sessions
import Lox.Proofs.Binding.Addresses
import Lox.Proofs.Binding.Forgotten
import Lox.Proofs.Running.Names
import Lox.Proofs.InStep
import Lox.Proofs.Grammar.Blocks
import Lox.Proofs.Grammar.Progress
import Lox.Proofs.Grammar.BareExpression
import Lox.Proofs.Prompt.Echo
import Lox.Proofs.Prompt.Partition
import Lox.Proofs.Running.Arity
import Lox.Proofs.Unfolding.Sources
import Lox.Proofs.Environment.Sharing
import Lox.Proofs.Grammar.WellFormed
import Lox.Proofs.Running.Slots
import Lox.Proofs.Printing.Unambiguous
