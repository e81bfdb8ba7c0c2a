import SicXe.Literal.Basic
import SicXe.Text.Words

/-!
# Columns of a source line

Columns are words, but a quoted constant such as `C'A B'` stays in one column. A line whose first
character is a full stop is a comment.
-/
namespace SicXe.Source

def isQuote (c : Char) : Bool := c = Literal.quote

/-- The columns of a line. -/
def columns (text : List Char) : List (List Char) := Text.quotedWords isQuote text

/-- The columns of a line as strings. -/
def columnsOf (text : String) : List String := (columns text.toList).map String.ofList

/-- Whether a line says nothing to the assembler: it is blank or a comment. -/
def isIdle (text : List Char) : Bool :=
  match Text.trimStart text with
  | [] => true
  | c :: _ => c = '.'

end SicXe.Source
