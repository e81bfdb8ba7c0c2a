import SicXe.Assembly.Outcome
import SicXe.Assembly.Tables

/-!
# Assembled programs

The result of assembling a source: its tables, the outcome of every line that was read, and the
faults that are left. If assembly halted, the tables hold what was done before the halting line.
-/
namespace SicXe.Assembly

structure Program where
  symbols : SymbolTable
  pool : LiteralPool
  outcomes : List Outcome
  start : Int
  counter : Int
  undefined : List Fault
  halted : Option Fault
  deriving DecidableEq, Repr

namespace Program

def isComplete (p : Program) : Bool := p.halted.isNone

/-- Bytes from the start address to the location counter. A second START can make it negative. -/
def length (p : Program) : Int := p.counter - p.start

/-- The resolved lines in order. -/
def resolved (p : Program) : List ResolvedLine := p.outcomes.filterMap Outcome.resolved?

/-- The faults stepped over, then those of undefined symbols, then the halting one. -/
def faults (p : Program) : List Fault :=
  p.outcomes.filterMap Outcome.fault? ++ p.undefined ++ p.halted.toList

/-- The resolved lines whose label was known before. -/
def redeclarations (p : Program) : List ResolvedLine := p.resolved.filter (·.redeclared)

end Program

end SicXe.Assembly
