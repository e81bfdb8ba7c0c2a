import SicXe.Fault
import SicXe.Instruction.Basic
import SicXe.Operand.Basic

/-!
# Sizes

How far an instruction moves the location counter. Most instructions have a size of their own; the
operand decides for START, BYTE, RESB, RESW and EQU.
-/
namespace SicXe.Assembly

open Instruction (Directive)

/-- Bytes in a machine word. -/
def wordSize : Nat := 3

/-- The size of an instruction that does not depend on its operand. -/
def fixedSize? (i : Instruction) : Option Nat :=
  match i with
  | .directive .word => some wordSize
  | .directive d => if d.sizedByOperand then none else some i.size
  | .machine _ _ _ => some i.size

/-- An operand that the instruction cannot do without. -/
def required (i : Instruction) : Option Operand → Except Error Operand
  | some operand => .ok operand
  | none => .error (.missingOperand i.mnemonic)

/-- The number of units to reserve. -/
def reservation (i : Instruction) (operand : Operand) : Except Error Int :=
  if operand.value < 0 then .error (.invalidReservation i.mnemonic operand.value)
  else .ok operand.value

/-- The location counter after an instruction, whether or not it is an address. -/
def following (i : Instruction) (counter : Int) (operand : Option Operand) : Except Error Int :=
  match i with
  | .directive .start => (required i operand).map Operand.value
  | .directive .equ => (required i operand).map fun _ => counter
  | .directive .byte => (required i operand).map fun o => counter + o.size
  | .directive .resb => (required i operand).bind fun o => (reservation i o).map (counter + ·)
  | .directive .resw =>
    (required i operand).bind fun o => (reservation i o).map (counter + · * wordSize)
  | _ => .ok (counter + (fixedSize? i).getD 0)

/-- A number as an address. -/
def toAddress (n : Int) : Except Error Int :=
  if Word.isAddress n then .ok n else .error (.addressOverflow n)

end SicXe.Assembly
