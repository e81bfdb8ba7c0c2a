import SicXe.Literal.Basic

/-!
# The literal pool

The literals that a program uses, each byte string once, in the order of first use. A counter beside
them, which starts at one, gives each new literal its address. `truncate` forgets the last ones.
-/
namespace SicXe

structure LiteralPool where
  literals : List Literal
  /-- The address that the next new literal gets. -/
  nextAddress : Int
  deriving DecidableEq, Repr

namespace LiteralPool

def empty : LiteralPool := ⟨[], 1⟩

def size (p : LiteralPool) : Nat := p.literals.length

def isEmpty (p : LiteralPool) : Bool := p.literals.isEmpty

/-- The literal with these bytes. -/
def get? (p : LiteralPool) (bytes : List UInt8) : Option Literal :=
  p.literals.find? (·.bytes = bytes)

/-- The pool's literal for a constant, which is added if its bytes are new. -/
def register (p : LiteralPool) (expression : String) :
    Except Literal.Error (Literal × LiteralPool) :=
  match Literal.parse expression with
  | .error e => .error e
  | .ok parsed =>
    match p.get? parsed.bytes with
    | some known => .ok (known, p)
    | none =>
      let pooled := { parsed with address := some p.nextAddress }
      .ok (pooled, ⟨p.literals ++ [pooled], Word.wrap (p.nextAddress + 1)⟩)

/-- Keeps the first literals only. The counter goes back if there are others. -/
def truncate (p : LiteralPool) (size : Nat) : LiteralPool :=
  if size < p.size then ⟨p.literals.take size, Word.wrap (size + 1)⟩ else p

@[simp] theorem truncate_size (p : LiteralPool) : p.truncate p.size = p := by
  simp [truncate]

end LiteralPool

end SicXe
