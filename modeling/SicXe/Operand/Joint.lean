import SicXe.Literal.Basic

/-!
# Operators in an operand

A plus or minus sign joins two terms unless it stands between apostrophes or is the sign of the
first term, which may come after addressing marks. `joints` finds every place where a text is
joined; it does not ask how many there are.
-/
namespace SicXe.Operand

inductive Sign where
  | plus | minus
  deriving DecidableEq, Repr

def Sign.ofChar? : Char → Option Sign
  | '+' => some .plus
  | '-' => some .minus
  | _ => none

/-- An operator and the texts on either side of it. -/
structure Joint where
  left : List Char
  sign : Sign
  right : List Char
  deriving DecidableEq, Repr

/-- The marks of immediate and indirect addressing. -/
def isAddressingMark (c : Char) : Bool := c = '#' || c = '@'

/-- The joints of what is left of a text, after `before` reversed. At the lead only addressing
marks have been read; there a sign is no operator. -/
def jointsFrom (quoted lead : Bool) (before : List Char) : List Char → List Joint
  | [] => []
  | c :: rest =>
    if lead && isAddressingMark c then jointsFrom quoted true (c :: before) rest
    else
      let following := jointsFrom (quoted != (c == Literal.quote)) false (c :: before) rest
      match Sign.ofChar? c with
      | some sign => if quoted || lead then following else ⟨before.reverse, sign, rest⟩ :: following
      | none => following

/-- The operators of a text, from the left. -/
def joints (text : List Char) : List Joint := jointsFrom false true [] text

end SicXe.Operand
