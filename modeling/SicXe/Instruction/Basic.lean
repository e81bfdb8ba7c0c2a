import SicXe.Instruction.Directive
import SicXe.Instruction.Format

/-!
# Instructions

What an instruction column may name: a machine instruction with its opcode and format, or a
directive.
-/
namespace SicXe

inductive Instruction where
  | machine (mnemonic : String) (opcode : UInt8) (format : Instruction.Format)
  | directive (d : Instruction.Directive)
  deriving DecidableEq, Repr

namespace Instruction

/-- Mnemonics are kept in upper case. -/
def upper (text : String) : String := String.ofList (text.toList.map Char.toUpper)

/-- The machine instruction of a mnemonic written in any case. -/
def ofMachine (mnemonic : String) (opcode : UInt8) (format : Format) : Instruction :=
  machine (upper mnemonic) opcode format

def mnemonic : Instruction → String
  | machine mnemonic _ _ => mnemonic
  | directive d => d.name

def opcode? : Instruction → Option UInt8
  | machine _ opcode _ => some opcode
  | directive _ => none

def format : Instruction → Format
  | machine _ _ format => format
  | directive _ => .unsized

def directive? : Instruction → Option Directive
  | machine _ _ _ => none
  | directive d => some d

/-- Bytes of object code that the instruction itself takes. -/
def size (i : Instruction) : Nat := i.format.size

def isExtended (i : Instruction) : Bool := i.format = .four

/-- In format 4, if it has a format at all. -/
def extend : Instruction → Instruction
  | machine mnemonic opcode .unsized => machine mnemonic opcode .unsized
  | machine mnemonic opcode _ => machine mnemonic opcode .four
  | directive d => directive d

/-- As a listing writes it: a plus sign marks format 4. -/
def shownMnemonic (i : Instruction) : String :=
  if i.isExtended then "+" ++ i.mnemonic else i.mnemonic

end Instruction

end SicXe
