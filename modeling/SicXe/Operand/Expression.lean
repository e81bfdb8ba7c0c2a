import SicXe.Fault
import SicXe.Operand.Joint
import SicXe.Symbol.Table

/-!
# Expressions

A term is a symbol or a decimal integer; an expression is a term, or two terms and an operator
between them. Its value is exact or there is none: a number outside the range of values is an error.
-/
namespace SicXe.Operand

/-- A number, and whether it moves with the program. -/
structure Quantity where
  value : Int
  relocatable : Bool
  deriving DecidableEq, Repr

/-- The quantity of a symbol that must be defined. -/
def symbol (symbols : SymbolTable) (text : List Char) : Except Error Quantity :=
  let name := String.ofList (Text.trim text)
  match symbols.lookup name with
  | some s => .ok ⟨s.value, s.relocatable⟩
  | none => .error (.undefinedSymbol name)

/-- The quantity of a term. Addressing marks before it do not count. -/
def term (symbols : SymbolTable) (raw : List Char) : Except Error Quantity :=
  let text := (Text.trim raw).dropWhile isAddressingMark
  if text.isEmpty then .error (.expressionSyntax (String.ofList raw) .term)
  else match Text.integer? text with
    | some value =>
      if Word.fits value then .ok ⟨value, false⟩ else .error (.invalidNumber (String.ofList text))
    | none => symbol symbols text

/-- Two numbers joined by an operator. -/
def Sign.apply : Sign → Int → Int → Int
  | .plus, a, b => a + b
  | .minus, a, b => a - b

/-- The quantity of two terms and the operator between them. The left term is looked at first. -/
def arithmetic (symbols : SymbolTable) (text : List Char) : Except Error Quantity :=
  match joints text with
  | [joint] =>
    match term symbols joint.left with
    | .error e => .error e
    | .ok left =>
      match term symbols joint.right with
      | .error e => .error e
      | .ok right =>
        let value := joint.sign.apply left.value right.value
        if Word.fits value then .ok ⟨value, left.relocatable || right.relocatable⟩
        else .error (.invalidNumber (String.ofList text))
  | _ => .error (.expressionSyntax (String.ofList text) .twoTerms)

/-- The quantity of an expression. -/
def quantity (symbols : SymbolTable) (text : List Char) : Except Error Quantity :=
  if (joints text).isEmpty then term symbols text else arithmetic symbols text

end SicXe.Operand
