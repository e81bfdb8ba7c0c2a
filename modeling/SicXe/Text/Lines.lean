/-!
# Lines

A line ends at a line feed. One carriage return right before the line feed belongs to the line end;
any other carriage return is text. A text that ends with a line feed has no empty last line.
-/
namespace SicXe.Text

/-- One more character in front of the first line. -/
def extendFirst (c : Char) : List (List Char) → List (List Char)
  | [] => [[c]]
  | first :: following => (c :: first) :: following

/-- The lines of a text, without their ends. -/
def lines : List Char → List (List Char)
  | [] => []
  | '\n' :: rest => [] :: lines rest
  | '\x0d' :: '\n' :: rest => [] :: lines rest
  | c :: rest => extendFirst c (lines rest)

/-- The lines of a text as strings. -/
def linesOf (text : String) : List String := (lines text.toList).map String.ofList

end SicXe.Text
