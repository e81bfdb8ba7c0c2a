import SicXe.Operand.Mode

/-!
# Operands

An operand column, evaluated: its value, whether the value moves with the program, and the bytes of
a constant. Format 2 instructions take registers and external names make a list; both are kinds of
their own.
-/
namespace SicXe

namespace Operand

inductive Kind where
  | addressed (mode : Mode)
  | registers
  | names
  deriving DecidableEq, Repr

def Kind.name : Kind → String
  | addressed mode => mode.name
  | registers => "Register"
  | names => "NameList"

end Operand

/-- An evaluated operand column. -/
structure Operand where
  expression : String
  kind : Operand.Kind
  value : Int
  relocatable : Bool
  bytes : List UInt8
  deriving DecidableEq, Repr

namespace Operand

/-- The number of bytes of a constant as a value, nothing for any other operand. -/
def size (o : Operand) : Int := Word.wrap o.bytes.length

def isIndexed (o : Operand) : Bool := o.kind = .addressed .indexed

def isIndirect (o : Operand) : Bool := o.kind = .addressed .indirect

def isImmediate (o : Operand) : Bool := o.kind = .addressed .immediate

end Operand

end SicXe
