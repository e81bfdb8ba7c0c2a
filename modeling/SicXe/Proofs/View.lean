import SicXe.Assembly.Program

/-!
# Views of a program

Two programs may differ in the numbers and texts of their lines and in how columns are written, and yet
be one program otherwise. A view says what is looked at: it is a function on each of the three, and
changes nothing else of an outcome or a fault.
-/
namespace SicXe

open Assembly

/-- How the numbers of lines, their texts, and the texts that are columns or parts of them are seen. -/
structure View where
  number : Nat → Nat
  text : String → String
  column : String → String

namespace View

/-- Numbers and texts of lines are not looked at. -/
def unplaced : View := ⟨fun _ => 0, fun _ => "", id⟩

/-- All letters look like capitals. -/
def caseless : View := ⟨id, Instruction.upper, Instruction.upper⟩

variable (v : View)

def labelError (e : Label.Error) : Label.Error := { e with label := v.column e.label }

def error : Error → Error
  | .invalidLabel e => .invalidLabel (v.labelError e)
  | .invalidLiteral e => .invalidLiteral ⟨v.column e.text⟩
  | .undefinedSymbol name => .undefinedSymbol (v.column name)
  | .expressionSyntax text shape => .expressionSyntax (v.column text) shape
  | .invalidNumber text => .invalidNumber (v.column text)
  | .invalidRegister text => .invalidRegister (v.column text)
  | .unknownInstruction line first second =>
    .unknownInstruction (v.number line) (v.column first) (second.map v.column)
  | .missingOperand mnemonic => .missingOperand mnemonic
  | .invalidReservation mnemonic count => .invalidReservation mnemonic count
  | .addressOverflow address => .addressOverflow address

def fault (f : Fault) : Fault := ⟨v.number f.line, v.text f.text, v.error f.error⟩

def operand (o : Operand) : Operand := { o with expression := v.column o.expression }

def line (l : ResolvedLine) : ResolvedLine :=
  { l with
    line := v.number l.line
    text := v.text l.text
    operand := l.operand.map v.operand
    deferred := l.deferred.map v.column }

def outcome : Outcome → Outcome
  | .skipped => .skipped
  | .resolved l => .resolved (v.line l)
  | .faulty f => .faulty (v.fault f)

/-- The result of evaluating a column, with the pool that it leaves. -/
def value : Except Error (Operand × LiteralPool) → Except Error (Operand × LiteralPool)
  | .ok (o, pool) => .ok (v.operand o, pool)
  | .error e => .error (v.error e)

/-- The normal form of a label, or why it has none. -/
def normalized (label : String) : Except Label.Error String :=
  (Label.normalize label).mapError v.labelError

end View

/-- The outcomes of the lines that say something to the assembler. -/
def Assembly.Outcome.significant (outcomes : List Outcome) : List Outcome :=
  outcomes.filter (· ≠ .skipped)

/-- Programs that have the same tables and addresses, and outcomes and faults that look the same. -/
structure Assembly.Program.SameIn (v : View) (p q : Program) : Prop where
  symbols : q.symbols = p.symbols
  pool : q.pool = p.pool
  start : q.start = p.start
  counter : q.counter = p.counter
  outcomes : (Outcome.significant q.outcomes).map v.outcome =
    (Outcome.significant p.outcomes).map v.outcome
  undefined : q.undefined.map v.fault = p.undefined.map v.fault
  halted : q.halted.map v.fault = p.halted.map v.fault

end SicXe
