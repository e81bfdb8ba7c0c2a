import SicXe.Fault
import SicXe.Instruction.Basic
import SicXe.Operand.Basic
import SicXe.Symbol.Basic

/-!
# Outcomes

What became of a source line: nothing to do, a resolved line with its address, or a fault that was
stepped over.
-/
namespace SicXe.Assembly

/-- A line with its address. The operand of a resolved line may be deferred: its text names a symbol
that is not defined yet. -/
structure ResolvedLine where
  line : Nat
  text : String
  address : Int
  length : Int
  instruction : Instruction
  label : Option Symbol
  redeclared : Bool
  operand : Option Operand
  deferred : Option String
  deriving DecidableEq, Repr

inductive Outcome where
  | skipped
  | resolved (line : ResolvedLine)
  | faulty (fault : Fault)
  deriving DecidableEq, Repr

namespace Outcome

def resolved? : Outcome → Option ResolvedLine
  | resolved line => some line
  | _ => none

def fault? : Outcome → Option Fault
  | faulty fault => some fault
  | _ => none

end Outcome

end SicXe.Assembly
