import SicXe.Assembly.Attempt
import SicXe.Assembly.Program

/-!
# The assembler

Source lines are read once, in order. Each is attempted on the tables as they are; if the attempt
fails, the tables are put back, and then assembly halts or steps over the line. Operands that waited
for a symbol are evaluated again at the end.
-/
namespace SicXe.Assembly

/-- What to do about a faulty line. -/
inductive Policy where
  /-- Halt. -/
  | abort
  /-- Step over it, if its size is known without its operand. -/
  | recover
  deriving DecidableEq, Repr

/-- The state of assembly between two lines. -/
structure Assembler where
  catalog : Catalog
  policy : Policy
  tables : Tables
  counter : Int
  start : Option Int
  outcomes : Array Outcome
  deriving Repr

namespace Assembler

/-- Before the first line, with symbols that are known already. -/
def new (catalog : Catalog) (symbols : SymbolTable) (policy : Policy) : Assembler :=
  ⟨catalog, policy, ⟨symbols, .empty⟩, 0, none, #[]⟩

/-- Records the outcome of a line. -/
def record (a : Assembler) (outcome : Outcome) : Except Fault Outcome × Assembler :=
  (.ok outcome, { a with outcomes := a.outcomes.push outcome })

/-- The first START sets the start address. -/
def startAfter (a : Assembler) (i : Instruction) (next : Int) : Option Int :=
  match a.start with
  | some start => some start
  | none => if i = .directive .start then some next else none

/-- Steps over a faulty line of a known size, or gives the fault back. -/
def stepOver (a : Assembler) (i : Instruction) (fault : Fault) :
    Except Fault Outcome × Assembler :=
  match a.policy, fixedSize? i with
  | .recover, some size =>
    if a.counter + size ≤ Word.maxAddress then
      { a with counter := a.counter + size }.record (.faulty fault)
    else (.error fault, a)
  | _, _ => (.error fault, a)

/-- Assembles a statement. -/
def stepStatement (a : Assembler) (line : Nat) (text : String) (s : Source.Statement) :
    Except Fault Outcome × Assembler :=
  match (resolveLine a.counter line text s).run a.tables with
  | .ok (resolved, next) tables =>
    { a with
      tables := tables
      counter := next
      start := a.startAfter s.instruction next }.record (.resolved resolved)
  | .error e touched =>
    let savepoint := Savepoint.take a.tables s.label
    { a with tables := savepoint.restore touched }.stepOver s.instruction ⟨line, text, e⟩

/-- Assembles one line. A fault means that assembly cannot go on; the assembler is then as it was. -/
def step (a : Assembler) (line : Nat) (text : String) : Except Fault Outcome × Assembler :=
  match Source.read a.catalog line text with
  | .error e => (.error ⟨line, text, e⟩, a)
  | .ok none => a.record .skipped
  | .ok (some s) => a.stepStatement line text s

/-- Evaluates the operand of a line that waited for a symbol. If that fails it goes on waiting. -/
def settleLine (symbols : SymbolTable) (pool : LiteralPool) (l : ResolvedLine) :
    ResolvedLine × Option Fault × LiteralPool :=
  match l.deferred with
  | none => (l, none, pool)
  | some expression =>
    match Operand.resolve symbols pool expression with
    | .ok (operand, pool) => ({ l with operand := some operand, deferred := none }, none, pool)
    | .error e => (l, some ⟨l.line, l.text, e⟩, pool)

/-- Evaluates all operands that wait, from the first line on. -/
def settle (symbols : SymbolTable) :
    LiteralPool → List Outcome → List Outcome × List Fault × LiteralPool
  | pool, [] => ([], [], pool)
  | pool, .resolved l :: rest =>
    let (l, fault, pool) := settleLine symbols pool l
    let (outcomes, faults, pool) := settle symbols pool rest
    (.resolved l :: outcomes, fault.toList ++ faults, pool)
  | pool, outcome :: rest =>
    let (outcomes, faults, pool) := settle symbols pool rest
    (outcome :: outcomes, faults, pool)

/-- The program assembled so far, complete or halted by a fault. -/
def finish (a : Assembler) (halted : Option Fault) : Program :=
  let (outcomes, undefined, pool) := settle a.tables.symbols a.tables.pool a.outcomes.toList
  { symbols := a.tables.symbols
    pool := pool
    outcomes := outcomes
    start := a.start.getD 0
    counter := a.counter
    undefined := undefined
    halted := halted }

/-- Assembles lines with ascending numbers, up to the first fault that halts. -/
def stepAll (a : Assembler) (number : Nat) : List String → Assembler × Option Fault
  | [] => (a, none)
  | text :: rest =>
    match a.step number text with
    | (.ok _, a) => stepAll a (number + 1) rest
    | (.error fault, a) => (a, some fault)

/-- Assembles a source. -/
def run (a : Assembler) (lines : List String) : Program :=
  let (a, halted) := a.stepAll 1 lines
  a.finish halted

end Assembler

end SicXe.Assembly
