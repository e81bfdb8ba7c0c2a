/-!
# Assembler directives

The ten instructions to the assembler itself. They have no opcode and no format.
-/
namespace SicXe.Instruction

inductive Directive where
  | start | finish | byte | word | resb | resw | base | equ | extdef | extref
  deriving DecidableEq, Repr

namespace Directive

def all : List Directive :=
  [start, finish, byte, word, resb, resw, base, equ, extdef, extref]

def name : Directive → String
  | start => "START"
  | finish => "END"
  | byte => "BYTE"
  | word => "WORD"
  | resb => "RESB"
  | resw => "RESW"
  | base => "BASE"
  | equ => "EQU"
  | extdef => "EXTDEF"
  | extref => "EXTREF"

/-- The directive of a name in either case. Blanks are not skipped. -/
def ofName? (text : String) : Option Directive :=
  all.find? fun d => d.name.toList = text.toList.map Char.toUpper

/-- Whether the operand decides how far the location counter moves. -/
def sizedByOperand : Directive → Bool
  | start | byte | resb | resw | equ => true
  | _ => false

theorem mem_all (d : Directive) : d ∈ all := by cases d <;> decide

end Directive

end SicXe.Instruction
