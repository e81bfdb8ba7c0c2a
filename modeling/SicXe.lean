import SicXe.Main
import SicXe.Proofs.Symbol.Table
import SicXe.Proofs.Literal.Pool
import SicXe.Proofs.Assembly.Atomicity
import SicXe.Proofs.Assembly.Agreement
import SicXe.Proofs.Assembly.Definitions
import SicXe.Proofs.Assembly.Layout
import SicXe.Proofs.Assembly.Waiting
import SicXe.Proofs.Assembly.Recovery
import SicXe.Proofs.Assembly.Isolation
import SicXe.Proofs.Assembly.Pooling
import SicXe.Proofs.Assembly.Extension
import SicXe.Proofs.Assembly.Comparison
import SicXe.Proofs.Assembly.Arrangement
import SicXe.Proofs.Operand.Case
import SicXe.Proofs.Source.Case
import SicXe.Proofs.Assembly.Case
import SicXe.Proofs.Catalog.Index
import SicXe.Proofs.Catalog.Law
import SicXe.Proofs.Catalog.Entries
import SicXe.Proofs.Literal.Form
import SicXe.Proofs.Operand.Constants
import SicXe.Proofs.Operand.Characters
import SicXe.Proofs.Source.Spacing
import SicXe.Proofs.Assembly.Characters
import SicXe.Proofs.CommandLine.Phases
import SicXe.Proofs.CommandLine.Accounting
import SicXe.Proofs.Catalog.Acceptance
import SicXe.Proofs.Literal.Hex
import SicXe.Proofs.Literal.Value
import SicXe.Proofs.Literal.Grammar
import SicXe.Proofs.Operand.Tree
import SicXe.Proofs.Operand.Meaning
import SicXe.Proofs.Literal.History
import SicXe.Proofs.Symbol.History
import SicXe.Proofs.Symbol.Entry
import SicXe.Proofs.Operand.Frame
import SicXe.Proofs.Assembly.Outcomes
import SicXe.Proofs.SymbolMap
import SicXe.Proofs.Listing.Row
import SicXe.Proofs.Assembly.Registers
