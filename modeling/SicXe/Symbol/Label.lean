import SicXe.Text.Blank

/-!
# Labels

A label is a letter and up to twenty letters, digits and underscores after it. Case and surrounding
blanks do not matter: `normalize` gives the one form in which a label is stored and compared.
Letters and digits are those of ASCII.
-/
namespace SicXe.Label

/-- The first rule that a text breaks as a label. -/
inductive Defect where
  | length | firstCharacter | character
  deriving DecidableEq, Repr

namespace Defect

def reason : Defect → String
  | length => "Out of range"
  | firstCharacter => "Invalid first character"
  | character => "Invalid character"

def expected : Defect → String
  | length => "1-21 letters, digits and underscores"
  | firstCharacter => "a letter"
  | character => "letters, digits and underscores"

end Defect

/-- A text without its outer blanks, and why it is no label. -/
structure Error where
  label : String
  defect : Defect
  deriving DecidableEq, Repr

def Error.message (e : Error) : String :=
  "Invalid label `" ++ e.label ++ "`: " ++ e.defect.reason ++ " (expected " ++
    e.defect.expected ++ ")"

def maxLength : Nat := 21

/-- How many characters of a label fixed-width output shows. -/
def shownLength : Nat := 6

/-- What may stand in a label after its first letter. -/
def isLabelChar (c : Char) : Bool := c.isAlphanum || c = '_'

/-- The first rule that a text without outer blanks breaks. -/
def defect? (label : List Char) : Option Defect :=
  match label with
  | [] => some .length
  | first :: _ =>
    if maxLength < label.length then some .length
    else if !first.isAlpha then some .firstCharacter
    else if !label.all isLabelChar then some .character
    else none

/-- The stored form of a label. -/
def normalize (text : String) : Except Error String :=
  let label := Text.trim text.toList
  match defect? label with
  | some defect => .error ⟨String.ofList label, defect⟩
  | none => .ok (String.ofList (label.map Char.toUpper))

/-- The part of a label that fixed-width output shows. -/
def short (label : String) : String := String.ofList (label.toList.take shownLength)

end SicXe.Label
