/-!
# Registers

The nine registers and the codes by which format 2 instructions name them.
-/
namespace SicXe

inductive Register where
  | a | x | l | b | s | t | f | pc | sw
  deriving DecidableEq, Repr

namespace Register

def all : List Register := [a, x, l, b, s, t, f, pc, sw]

def name : Register → String
  | a => "A"
  | x => "X"
  | l => "L"
  | b => "B"
  | s => "S"
  | t => "T"
  | f => "F"
  | pc => "PC"
  | sw => "SW"

/-- Seven is no register. -/
def code : Register → UInt8
  | a => 0
  | x => 1
  | l => 2
  | b => 3
  | s => 4
  | t => 5
  | f => 6
  | pc => 8
  | sw => 9

/-- The register of a name in either case. Blanks are not skipped. -/
def ofName? (text : String) : Option Register :=
  all.find? fun r => r.name.toList = text.toList.map Char.toUpper

def ofCode? (code : UInt8) : Option Register := all.find? (·.code = code)

end Register

end SicXe
