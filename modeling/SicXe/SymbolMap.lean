import SicXe.Assembly.Program
import SicXe.Yaml.Node

/-!
# Symbol maps

What other tools need to know of assembled programs: for each source its start, its length, its
symbols and its literals. A source that is added again takes the place of its former entry.
-/
namespace SicXe

namespace SymbolMap

structure SymbolEntry where
  value : Int
  relocatable : Bool
  multiplyDefined : Bool
  deriving DecidableEq, Repr

structure LiteralEntry where
  expression : String
  hex : String
  length : Nat
  address : Int
  deriving DecidableEq, Repr

structure ProgramEntry where
  start : Int
  length : Int
  symbols : List (String × SymbolEntry)
  literals : List LiteralEntry
  deriving DecidableEq, Repr

def SymbolEntry.ofSymbol (s : Symbol) : SymbolEntry := ⟨s.value, s.relocatable, s.multiplyDefined⟩

def LiteralEntry.ofLiteral (l : Literal) : LiteralEntry :=
  ⟨l.expression, l.hex, l.bytes.length, l.address.getD 0⟩

def ProgramEntry.ofProgram (p : Assembly.Program) : ProgramEntry where
  start := p.start
  length := p.length
  symbols := p.symbols.toList.map fun s => (s.label, .ofSymbol s)
  literals := p.pool.literals.map .ofLiteral

def SymbolEntry.node (e : SymbolEntry) : Yaml.Node :=
  .mapping [("value", .integer e.value), ("relocatable", .boolean e.relocatable),
    ("multiply_defined", .boolean e.multiplyDefined)]

def LiteralEntry.node (e : LiteralEntry) : Yaml.Node :=
  .mapping [("expression", .text e.expression), ("hex", .text e.hex),
    ("length", .integer e.length), ("address", .integer e.address)]

def ProgramEntry.node (e : ProgramEntry) : Yaml.Node :=
  .mapping [("start", .integer e.start), ("length", .integer e.length),
    ("symbols", .mapping (e.symbols.map fun s => (s.1, s.2.node))),
    ("literals", .sequence (e.literals.map LiteralEntry.node))]

end SymbolMap

/-- The entries of sources by path, in the order in which the paths were first added. -/
structure SymbolMap where
  programs : List (String × SymbolMap.ProgramEntry)
  deriving DecidableEq, Repr

namespace SymbolMap

def empty : SymbolMap := ⟨[]⟩

/-- Puts an entry in place of that of the same path, or at the end. -/
def putIn (path : String) (entry : ProgramEntry) :
    List (String × ProgramEntry) → List (String × ProgramEntry)
  | [] => [(path, entry)]
  | known :: rest =>
    if known.1 = path then (path, entry) :: rest else known :: putIn path entry rest

/-- Adds the program assembled from a source. -/
def add (m : SymbolMap) (path : String) (p : Assembly.Program) : SymbolMap :=
  ⟨putIn path (.ofProgram p) m.programs⟩

def node (m : SymbolMap) : Yaml.Node :=
  .mapping [("programs", .mapping (m.programs.map fun p => (p.1, p.2.node)))]

/-- The map in YAML. -/
def toYaml (m : SymbolMap) : String := m.node.document

end SymbolMap

end SicXe
