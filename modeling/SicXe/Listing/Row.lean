import SicXe.Assembly.Outcome
import SicXe.Text.Padding
import SicXe.Text.Styled

/-!
# Rows of a listing

A row shows one source line: address and length, then after a bar the line number, label, mnemonic
and operand. A faulty line has a mark in place of its address, and its text and error in place of its
columns.
-/
namespace SicXe.Listing

open Assembly (ResolvedLine)
open Text (Span Styled padLeft padRight)

/-- The width of what stands before the bar. -/
def marginWidth : Nat := 16

/-- A line number in its field. -/
def lineField (line : Nat) : String := padLeft 4 ' ' (toString line)

/-- How a relocatable and an absolute value are marked. -/
def relocationMark (relocatable : Bool) : String := if relocatable then "R" else "A"

/-- The address and length of a line. -/
def margin (address length : Int) : String :=
  "[" ++ Text.hexField .bits32 address ++ "] +" ++ padRight 5 (toString length) ++ " "

/-- The label of a line, or room for one. -/
def labelSpan : Option Symbol → Span
  | some symbol => ⟨[.green], padRight Label.shownLength symbol.shortLabel⟩
  | none => .of (Text.spaces Label.shownLength)

/-- The operand of a line with its kind, word and mark, or the text that still waits. -/
def operandSpans (operand : Option Operand) (deferred : Option String) : Styled :=
  match operand, deferred with
  | some o, _ =>
    [.of (padRight 12 o.expression ++ " "), ⟨[.cyan], padRight 20 o.kind.name⟩,
      .of (" " ++ Text.hexField .bits24 o.value ++ " " ++ relocationMark o.relocatable)]
  | none, some expression => [.of (padRight 12 expression ++ " "), ⟨[.yellow], "unresolved"⟩]
  | none, none => []

/-- The row of a resolved line. -/
def resolvedRow (l : ResolvedLine) : Styled :=
  .of (margin l.address l.length) :: .of ("| " ++ lineField l.line ++ ": ") :: labelSpan l.label ::
    .of (" " ++ padRight 8 l.instruction.shownMnemonic ++ " ") ::
    operandSpans l.operand l.deferred

/-- A mark that fills the margin, and the line that it is about. -/
def markedRow (mark : String) (f : Fault) : Styled :=
  [⟨[.red, .bold], padRight marginWidth mark⟩,
    .of ("| " ++ lineField f.line ++ ": " ++ Text.trimmed f.text)]

/-- The row of a faulty line. -/
def faultRow (f : Fault) : Styled :=
  markedRow "[??????] !!" f ++ [Span.of " ", ⟨[.red], "; " ++ f.error.message⟩]

/-- The row of the line at which assembly halted. -/
def haltedRow (f : Fault) : Styled := markedRow "halted" f

/-- The row of an outcome, if it has one. -/
def outcomeRow : Assembly.Outcome → Option Styled
  | .skipped => none
  | .resolved l => some (resolvedRow l)
  | .faulty f => some (faultRow f)

end SicXe.Listing
