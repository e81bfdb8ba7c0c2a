import SicXe.Text.Blank
import SicXe.Text.Numeral

/-!
# Instruction formats

The format of a machine instruction is its size in bytes, one to four. A directive has none.
-/
namespace SicXe.Instruction

inductive Format where
  | unsized | one | two | three | four
  deriving DecidableEq, Repr

namespace Format

def all : List Format := [unsized, one, two, three, four]

/-- Bytes of object code. -/
def size : Format → Nat
  | unsized => 0
  | one => 1
  | two => 2
  | three => 3
  | four => 4

def name : Format → String
  | unsized => "-"
  | one => "1"
  | two => "2"
  | three => "3"
  | four => "4"

def ofSize? (size : Nat) : Option Format := all.find? (·.size = size)

/-- Reads a format column. `3/4` marks an instruction of format 3 that may be extended; it is
extended by its own prefix, so the column says 3. -/
def ofText? (text : String) : Option Format :=
  let column := Text.trim text.toList
  if column = ['3', '/', '4'] then some three
  else match Text.byte? 10 column with
    | some size => (ofSize? size.toNat).filter (· ≠ unsized)
    | none => none

theorem ofSize?_size (f : Format) : ofSize? f.size = some f := by cases f <;> decide

/-- A format column never says that there is no format. -/
theorem ofText?_ne_unsized (text : String) : ofText? text ≠ some unsized := by
  unfold ofText?
  dsimp only
  split
  · simp
  · split <;> simp [Option.filter_eq_some_iff]

end Format

end SicXe.Instruction
