import SicXe.Text.Numeral
import SicXe.Word

/-!
# Padding

Fields of a minimal width, counted in characters. A text that is wider stays as it is.
-/
namespace SicXe.Text

/-- Filled up on the right with blanks. -/
def padRight (width : Nat) (text : String) : String :=
  text ++ String.ofList (List.replicate (width - text.length) ' ')

/-- Filled up on the left. -/
def padLeft (width : Nat) (fill : Char) (text : String) : String :=
  String.ofList (List.replicate (width - text.length) fill) ++ text

/-- A word in upper-case hex, with six digits at least. -/
def hexField (width : Word.Width) (n : Int) : String :=
  padLeft 6 '0' (String.ofList (upperHex (Word.unsigned width n)))

/-- A field of blanks. -/
def spaces (width : Nat) : String := String.ofList (List.replicate width ' ')

end SicXe.Text
