import SicXe.Catalog.Basic
import SicXe.Fault
import SicXe.Source.Columns

/-!
# Statements

A statement is an instruction, with a label before it and an operand after it if there are any.
Columns after the operand are comment. The first column is the instruction if the catalog knows it;
otherwise it is a label, and the second column has to be the instruction.
-/
namespace SicXe.Source

structure Statement where
  label : Option String
  instruction : Instruction
  operand : Option String
  deriving DecidableEq, Repr

/-- The statement in the columns of a line. -/
def statement? (catalog : Catalog) : List String → Option Statement
  | [] => none
  | first :: rest =>
    match catalog.lookup first with
    | some instruction => some ⟨none, instruction, rest.head?⟩
    | none =>
      match rest with
      | [] => none
      | second :: rest =>
        (catalog.lookup second).map fun instruction => ⟨some first, instruction, rest.head?⟩

/-- Reads a line: its statement, or none if it is idle. -/
def read (catalog : Catalog) (line : Nat) (text : String) : Except Error (Option Statement) :=
  if isIdle text.toList then .ok none
  else
    let columns := columnsOf text
    match statement? catalog columns with
    | some s => .ok (some s)
    | none => .error (.unknownInstruction line (columns.head?.getD "") columns[1]?)

end SicXe.Source
