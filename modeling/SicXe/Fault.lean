import SicXe.Literal.Basic
import SicXe.Symbol.Label
import SicXe.Text.Numeral
import SicXe.Word

/-!
# Faults

Why a source line cannot be assembled, and that reason together with the line.
-/
namespace SicXe

/-- What an operand would have to look like. -/
inductive OperandShape where
  | indexed | twoTerms | term | registers
  deriving DecidableEq, Repr

def OperandShape.expected : OperandShape → String
  | .indexed => "[operand],X"
  | .twoTerms => "[operand operator operand]"
  | .term => "a symbol or an integer"
  | .registers => "one or two registers separated by a comma"

inductive Error where
  | invalidLabel (e : Label.Error)
  | invalidLiteral (e : Literal.Error)
  | undefinedSymbol (name : String)
  | expressionSyntax (text : String) (shape : OperandShape)
  | invalidNumber (text : String)
  | invalidRegister (text : String)
  | unknownInstruction (line : Nat) (first : String) (second : Option String)
  | missingOperand (mnemonic : String)
  | invalidReservation (mnemonic : String) (count : Int)
  | addressOverflow (address : Int)
  deriving DecidableEq, Repr

namespace Error

/-- An address out of range is shown as a word of 64 bits. -/
def message : Error → String
  | invalidLabel e => e.message
  | invalidLiteral e => e.message
  | undefinedSymbol name => "Undefined symbol: `" ++ name ++ "`"
  | expressionSyntax text shape =>
    "Invalid expression `" ++ text ++ "`: expected " ++ shape.expected
  | invalidNumber text => "Cannot parse `" ++ text ++ "` as a 24-bit number"
  | invalidRegister text =>
    "Invalid register `" ++ text ++ "`: expected one of A X L B S T F PC SW, or 0-15"
  | unknownInstruction line first second =>
    "Unknown instruction on line " ++ toString line ++ ": neither `" ++ first ++ "` nor `" ++
      second.getD "" ++ "` is a mnemonic"
  | missingOperand mnemonic => "More argument required: `" ++ mnemonic ++ "` needs an operand"
  | invalidReservation mnemonic count =>
    "Invalid reservation: `" ++ mnemonic ++ "` cannot reserve " ++ toString count ++ " units"
  | addressOverflow address =>
    "Address 0x" ++ String.ofList (Text.upperHex (Word.unsigned .bits64 address)) ++
      " is outside the 24-bit address space"

def isUndefinedSymbol : Error → Bool
  | undefinedSymbol _ => true
  | _ => false

end Error

/-- A source line that could not be assembled, by its number and text. -/
structure Fault where
  line : Nat
  text : String
  error : Error
  deriving DecidableEq, Repr

def Fault.message (f : Fault) : String := "line " ++ toString f.line ++ ": " ++ f.error.message

end SicXe
