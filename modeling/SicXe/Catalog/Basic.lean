import SicXe.Instruction.Basic
import SicXe.Text.Padding

/-!
# The instruction catalog

A catalog holds machine instructions, no two with one mnemonic or one opcode, and always knows the
ten directives. `lookup` reads an instruction column; `register` adds a machine instruction unless
it clashes with what is there.
-/
namespace SicXe

/-- The machine instructions that a program may use. -/
structure Catalog where
  entries : List Instruction
  deriving Repr

namespace Catalog

/-- What is wrong with a line of an opcode table. -/
inductive EntryDefect where
  | columns | opcode | format
  deriving DecidableEq, Repr

/-- Why a line of an opcode table, or an instruction, is refused. -/
inductive Error where
  | invalidEntry (line : Nat) (text : String) (defect : EntryDefect)
  | duplicateMnemonic (mnemonic : String)
  | duplicateOpcode (mnemonic : String) (opcode : UInt8) (owner : String)
  deriving DecidableEq, Repr

namespace EntryDefect

def reason : EntryDefect → String
  | columns => "Invalid number of columns"
  | opcode => "Opcode is not a hex byte"
  | format => "Format must be 1-4"

end EntryDefect

namespace Error

def message : Error → String
  | invalidEntry line text defect =>
    "Opcode table line " ++ toString line ++ ": " ++ defect.reason ++
      " (expected `MNEMONIC HEXOPCODE FORMAT`, got `" ++ text ++ "`)"
  | duplicateMnemonic mnemonic => "Mnemonic `" ++ mnemonic ++ "` is already registered"
  | duplicateOpcode mnemonic opcode owner =>
    "Opcode 0x" ++ Text.bytesHex [opcode] ++ " of `" ++ mnemonic ++ "` is already used by `" ++
      owner ++ "`"

end Error

/-- Directives only. -/
def empty : Catalog := ⟨[]⟩

/-- The number of machine instructions. -/
def size (c : Catalog) : Nat := c.entries.length

/-- The entry stored under a mnemonic in upper case. -/
def find? (c : Catalog) (key : String) : Option Instruction :=
  match Instruction.Directive.all.find? (·.name = key) with
  | some d => some (.directive d)
  | none => c.entries.find? (·.mnemonic = key)

/-- The mnemonic of an instruction column, and whether a plus sign before it asks for format 4. -/
def splitExtension : List Char → Bool × List Char
  | '+' :: base => (true, base)
  | base => (false, base)

/-- The instruction that an instruction column names, in any case. A directive may be written with
the plus sign too, but has no format to change. -/
def lookup (c : Catalog) (column : String) : Option Instruction :=
  let (extended, base) := splitExtension (Text.trim column.toList)
  if base.isEmpty then none
  else
    let found := c.find? (Instruction.upper (String.ofList base))
    if extended then found.map Instruction.extend else found

def contains (c : Catalog) (column : String) : Bool := (c.lookup column).isSome

/-- The mnemonic that an opcode belongs to. -/
def mnemonicOf? (c : Catalog) (opcode : UInt8) : Option String :=
  (c.entries.find? (·.opcode? = some opcode)).map Instruction.mnemonic

/-- Adds a machine instruction. A clash of mnemonics is found before one of opcodes. -/
def register (c : Catalog) (mnemonic : String) (opcode : UInt8) (format : Instruction.Format) :
    Except Error Catalog :=
  let key := Instruction.upper mnemonic
  if (c.find? key).isSome then .error (.duplicateMnemonic key)
  else match c.mnemonicOf? opcode with
    | some owner => .error (.duplicateOpcode key opcode owner)
    | none => .ok ⟨c.entries ++ [.machine key opcode format]⟩

/-- The opcodes in use with their mnemonics, in ascending order. -/
def opcodes (c : Catalog) : List (UInt8 × String) :=
  (List.range 256).filterMap fun n => (c.mnemonicOf? (.ofNat n)).map (UInt8.ofNat n, ·)

end Catalog

end SicXe
