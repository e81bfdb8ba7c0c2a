import SicXe.Assembly.Program
import SicXe.Listing.Row

/-!
# Listings and tables

The listing of a program with the table of its symbols and that of its literals.
-/
namespace SicXe.Listing

open Assembly (Program)
open Text (Span Styled padRight)

/-- The room before the bar of a table. -/
def tableMargin : Nat := 19

def dashes (width : Nat) : String := String.ofList (List.replicate width '-')

/-- The line below a listing or a table. -/
def rule : Styled := [.of (dashes tableMargin ++ "+" ++ dashes 53)]

/-- The line above a listing: the path, with dashes up to the width of the rule as far as the bytes
of the path leave room. -/
def heading (path : String) : Styled :=
  [.of (dashes tableMargin ++ "+------[" ++ path ++ "]" ++ dashes (45 - path.utf8ByteSize))]

/-- The rows of a program's lines. -/
def rows (p : Program) : List Styled := p.outcomes.filterMap outcomeRow

/-- The listing of a program. -/
def listing (path : String) (p : Program) : List Styled :=
  [heading path] ++ rows p ++ p.halted.toList.map haltedRow ++ [rule]

/-- The start of a row of a table. -/
def tableBar : String := Text.spaces tableMargin ++ "| "

def yesNo (b : Bool) : String := if b then "true" else "false"

def symbolRow (s : Symbol) : Styled :=
  [.of tableBar, ⟨[.green], padRight 8 s.shortLabel⟩,
    .of (" " ++ Text.hexField .bits24 s.value ++ " " ++ padRight 5 (yesNo s.relocatable) ++ " "),
    ⟨if s.multiplyDefined then [.yellow] else [], yesNo s.multiplyDefined⟩]

/-- The symbol table of a program. -/
def symbolTable (symbols : SymbolTable) : List Styled :=
  [Span.of (tableBar ++ padRight 8 "LABEL" ++ " " ++ padRight 6 "VALUE" ++ " " ++
    padRight 5 "RFLAG" ++ " " ++ padRight 5 "MFLAG")] ::
    symbols.toList.map symbolRow ++ [rule]

def literalRow (l : Literal) : Styled :=
  [.of tableBar, ⟨[.cyan], padRight 12 l.expression⟩,
    .of (" " ++ padRight 16 l.hex ++ " " ++ padRight 6 (toString l.bytes.length) ++ " " ++
      padRight 7 (toString (l.address.getD 0)))]

/-- The literal table of a program. -/
def literalTable (pool : LiteralPool) : List Styled :=
  [Span.of (tableBar ++ padRight 12 "NAME" ++ " " ++ padRight 16 "VALUE" ++ " " ++
    padRight 6 "LENGTH" ++ " " ++ padRight 7 "ADDRESS")] ::
    pool.literals.map literalRow ++ [rule]

/-- The listing and both tables. -/
def report (path : String) (p : Program) : List Styled :=
  listing path p ++ symbolTable p.symbols ++ literalTable p.pool

/-- The rows of the lines, of the operands that were never resolved and of the halting line. -/
def allRows (p : Program) : List Styled :=
  rows p ++ p.undefined.map faultRow ++ p.halted.toList.map faultRow

end SicXe.Listing
