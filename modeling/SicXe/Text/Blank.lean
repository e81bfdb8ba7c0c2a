/-!
# Blank characters

White space is the Unicode property `White_Space`, given here as a table. Text that an assembler
reads is cut at its blanks: off both ends (`trim`) and into words (`Text.Words`).

Texts are lists of characters wherever they are taken apart.
-/
namespace SicXe.Text

/-- The code points with the property `White_Space`, as closed ranges in ascending order. -/
def blankRanges : List (Nat × Nat) :=
  [(0x09, 0x0D), (0x20, 0x20), (0x85, 0x85), (0xA0, 0xA0), (0x1680, 0x1680), (0x2000, 0x200A),
   (0x2028, 0x2029), (0x202F, 0x202F), (0x205F, 0x205F), (0x3000, 0x3000)]

def isBlank (c : Char) : Bool :=
  blankRanges.any fun range => range.1 ≤ c.toNat && c.toNat ≤ range.2

/-- Without the blanks at its start. -/
def trimStart (text : List Char) : List Char := text.dropWhile isBlank

/-- Without the blanks at its end. -/
def trimEnd (text : List Char) : List Char := (text.reverse.dropWhile isBlank).reverse

/-- Without the blanks at either end. -/
def trim (text : List Char) : List Char := trimEnd (trimStart text)

/-- A string without the blanks at either end. -/
def trimmed (text : String) : String := String.ofList (trim text.toList)

/-- The property holds of twenty-five code points. -/
example : (blankRanges.map fun range => range.2 + 1 - range.1).sum = 25 := by decide

/-- Each end of the table's ranges is blank, and its neighbours outside the table are not. -/
example : isBlank '\t' ∧ isBlank '\x0d' ∧ isBlank '\u3000' ∧ isBlank '\u200a' ∧
    ¬ isBlank '\u200b' ∧ ¬ isBlank '\x1c' ∧ ¬ isBlank '\ufeff' := by decide

end SicXe.Text
