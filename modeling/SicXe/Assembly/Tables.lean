import SicXe.Literal.Pool
import SicXe.Symbol.Table

/-!
# The tables of a program

The symbol table and the literal pool grow together while a program is assembled. A savepoint keeps
of them what is needed to take back all that one line can do.
-/
namespace SicXe.Assembly

structure Tables where
  symbols : SymbolTable
  pool : LiteralPool
  deriving DecidableEq, Repr

/-- The label that a line defines, the symbol it had before, and the size of the pool. -/
structure Savepoint where
  label : Option String
  known : Option Symbol
  pooled : Nat
  deriving DecidableEq, Repr

namespace Savepoint

/-- The savepoint for a line with this label. -/
def take (tables : Tables) (label : Option String) : Savepoint :=
  ⟨label, label.bind tables.symbols.lookup, tables.pool.size⟩

/-- The tables without what was done after the savepoint. -/
def restore (s : Savepoint) (tables : Tables) : Tables where
  symbols := match s.label with
    | some label => tables.symbols.restore label s.known
    | none => tables.symbols
  pool := tables.pool.truncate s.pooled

end Savepoint

end SicXe.Assembly
