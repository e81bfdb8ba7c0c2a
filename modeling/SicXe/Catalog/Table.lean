import SicXe.Catalog.Basic
import SicXe.Text.Lines
import SicXe.Text.Words

/-!
# Opcode tables

A catalog in text form: on each line a mnemonic, an opcode in hex and a format. Blank lines count
as lines but hold nothing. The first line that cannot be read or registered is the error.
-/
namespace SicXe.Catalog

/-- Adds the entry of one line of a table. -/
def registerLine (c : Catalog) (number : Nat) (line : List Char) : Except Error Catalog :=
  let invalid := fun defect =>
    Except.error (Error.invalidEntry number (String.ofList (Text.trim line)) defect)
  match Text.words line with
  | [] => .ok c
  | [mnemonic, opcode, format] =>
    match Text.byte? 16 opcode with
    | none => invalid .opcode
    | some opcode =>
      match Instruction.Format.ofText? (String.ofList format) with
      | none => invalid .format
      | some format => c.register (String.ofList mnemonic) opcode format
  | _ => invalid .columns

/-- Adds the entries of the lines from a line number on. -/
def registerLines (number : Nat) : Catalog → List (List Char) → Except Error Catalog
  | c, [] => .ok c
  | c, line :: rest =>
    match c.registerLine number line with
    | .ok c => registerLines (number + 1) c rest
    | .error e => .error e

/-- The catalog that an opcode table describes. -/
def ofTable (text : String) : Except Error Catalog :=
  registerLines 1 empty (Text.lines text.toList)

end SicXe.Catalog
