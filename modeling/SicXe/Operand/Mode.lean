import SicXe.Operand.Joint

/-!
# Addressing modes

The form of an operand decides how it is evaluated. The forms overlap, so their order counts: the
first that fits is the mode.
-/
namespace SicXe.Operand

inductive Mode where
  | simple | immediate | indirect | indexed | arithmetic
  | literal (kind : Literal.Kind)
  deriving DecidableEq, Repr

namespace Mode

def name : Mode → String
  | simple => "Simple"
  | immediate => "Immediate"
  | indirect => "Indirect"
  | indexed => "Indexed"
  | arithmetic => "ArithmeticExpression"
  | literal .pooledNumber => "LiteralNumber"
  | literal .pooledString => "LiteralString"
  | literal .constantNumber => "ConstantNumber"
  | literal .constantString => "ConstantString"
  | literal .decimal => "JustNumber"

end Mode

/-- What stands before an index suffix, `,X` in either case. -/
def indexBase? (text : List Char) : Option (List Char) :=
  match text.reverse with
  | x :: ',' :: base => if x.toUpper = 'X' then some base.reverse else none
  | _ => none

/-- The kind that the marks of a constant announce; whether it is well formed is another matter. -/
def announcedKind (text : List Char) : Literal.Kind :=
  let pooled := text.head? = some '='
  let number := (text.dropWhile (· = '=')).head?.map Char.toUpper = some 'X'
  if pooled then if number then .pooledNumber else .pooledString
  else if number then .constantNumber else .constantString

/-- The mode of an operand. -/
def classify (expression : List Char) : Mode :=
  let text := Text.trim expression
  if (indexBase? text).isSome then .indexed
  else if !(joints text).isEmpty then .arithmetic
  else if text.head? = some '#' then .immediate
  else if text.head? = some '@' then .indirect
  else if Literal.isConstantForm text then .literal (announcedKind text)
  else if Text.isInteger text then .literal .decimal
  else .simple

end SicXe.Operand
