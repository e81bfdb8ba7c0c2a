import SicXe.Assembly.Outcome
import SicXe.Assembly.Size
import SicXe.Assembly.Tables
import SicXe.Operand.Resolve
import SicXe.Source.Statement

/-!
# One attempt at a line

A statement is worked through in order: its label is defined, its operand evaluated, the location
counter moved. Every part may change the tables and may fail. An attempt that fails leaves the tables
as far as it got; taking that back is left to whoever made the attempt.
-/
namespace SicXe.Assembly

/-- Work on the tables that may fail. -/
abbrev Attempt := EStateM Error Tables

/-- Evaluates an operand column in the way of its instruction. -/
def evaluate (i : Instruction) (symbols : SymbolTable) (pool : LiteralPool) (expression : String) :
    Except Error (Operand × LiteralPool) :=
  match i with
  | .directive .extdef | .directive .extref => (Operand.resolveNames expression).map (·, pool)
  | .machine _ _ .two => (Operand.resolveRegisters expression).map (·, pool)
  | _ => Operand.resolve symbols pool expression

/-- Defines the label of a line as the address of the line. -/
def declareLabel (address : Int) : Option String → Attempt (Option Declaration)
  | none => pure none
  | some label => do
    let tables ← get
    match tables.symbols.declare label address true with
    | .error e => throw (.invalidLabel e)
    | .ok (declaration, symbols) =>
      set { tables with symbols := symbols }
      return some declaration

/-- The operand of a line, or its text if it has to wait for a symbol. Only an operand that the size
of the line does not depend on can wait. -/
def readOperand (i : Instruction) : Option String → Attempt (Option Operand × Option String)
  | none => pure (none, none)
  | some expression => do
    let tables ← get
    match evaluate i tables.symbols tables.pool expression with
    | .ok (operand, pool) =>
      set { tables with pool := pool }
      return (some operand, none)
    | .error e =>
      if e.isUndefinedSymbol && (fixedSize? i).isSome then return (none, some expression)
      else throw e

/-- EQU gives the label of its line the value of its operand, unless the label was known before. -/
def equate (i : Instruction) (declaration : Option Declaration) (operand : Option Operand)
    (symbols : SymbolTable) : SymbolTable :=
  match i, declaration, operand with
  | .directive .equ, some (.inserted symbol), some operand =>
    (symbols.assign symbol.label operand.value operand.relocatable).2
  | _, _, _ => symbols

/-- START moves the location counter but takes no room. -/
def lengthOf (i : Instruction) (address next : Int) : Int :=
  if i = .directive .start then 0 else next - address

/-- The line that a statement makes, from what was found out about its columns. -/
def lineOf (address next : Int) (line : Nat) (text : String) (i : Instruction)
    (symbols : SymbolTable) (declaration : Option Declaration)
    (operand : Option Operand × Option String) : ResolvedLine where
  line := line
  text := text
  address := address
  length := lengthOf i address next
  instruction := i
  label := declaration.bind fun d => symbols.lookup d.symbol.label
  redeclared := (declaration.map Declaration.isExisting).getD false
  operand := operand.1
  deferred := operand.2

/-- The resolved line of a statement, and the location counter after it. -/
def resolveLine (counter : Int) (line : Nat) (text : String) (s : Source.Statement) :
    Attempt (ResolvedLine × Int) := do
  let declaration ← declareLabel counter s.label
  let operand ← readOperand s.instruction s.operand
  match following s.instruction counter operand.1 with
  | .error e => throw e
  | .ok next =>
    modify fun tables =>
      { tables with symbols := equate s.instruction declaration operand.1 tables.symbols }
    match toAddress next with
    | .error e => throw e
    | .ok next =>
      let symbols := (← get).symbols
      return (lineOf counter next line text s.instruction symbols declaration operand, next)

/-! ### What each part does to the tables -/

/-- Reading the tables changes nothing and cannot fail. -/
theorem run_get_bind {α : Type} (next : Tables → Attempt α) (t : Tables) :
    EStateM.run (get >>= next) t = (next t).run t := rfl

theorem declareLabel_run (address : Int) (label : Option String) (t : Tables) :
    (declareLabel address label).run t =
      match label with
      | none => .ok none t
      | some label =>
        match t.symbols.declare label address true with
        | .error e => .error (.invalidLabel e) t
        | .ok (declaration, symbols) => .ok (some declaration) { t with symbols := symbols } := by
  cases label with
  | none => rfl
  | some label =>
    simp only [declareLabel, run_get_bind]
    cases t.symbols.declare label address true <;> rfl

theorem readOperand_run (i : Instruction) (expression : Option String) (t : Tables) :
    (readOperand i expression).run t =
      match expression with
      | none => .ok (none, none) t
      | some expression =>
        match evaluate i t.symbols t.pool expression with
        | .ok (operand, pool) => .ok (some operand, none) { t with pool := pool }
        | .error e =>
          if e.isUndefinedSymbol && (fixedSize? i).isSome then .ok (none, some expression) t
          else .error e t := by
  cases expression with
  | none => rfl
  | some expression =>
    simp only [readOperand, run_get_bind]
    cases evaluate i t.symbols t.pool expression with
    | ok result => rfl
    | error e =>
      dsimp only
      split <;> rfl

/-- An attempt at a line, part by part. -/
theorem resolveLine_run (counter : Int) (line : Nat) (text : String) (s : Source.Statement)
    (t : Tables) :
    (resolveLine counter line text s).run t =
      match (declareLabel counter s.label).run t with
      | .error e t => .error e t
      | .ok declaration t =>
        match (readOperand s.instruction s.operand).run t with
        | .error e t => .error e t
        | .ok operand t =>
          match following s.instruction counter operand.1 with
          | .error e => .error e t
          | .ok next =>
            let symbols := equate s.instruction declaration operand.1 t.symbols
            match toAddress next with
            | .error e => .error e { t with symbols := symbols }
            | .ok next =>
              .ok (lineOf counter next line text s.instruction symbols declaration operand, next)
                { t with symbols := symbols } := by
  simp only [resolveLine, EStateM.run, bind, EStateM.bind]
  cases declareLabel counter s.label t with
  | error e t => rfl
  | ok declaration t =>
    dsimp only
    cases readOperand s.instruction s.operand t with
    | error e t => rfl
    | ok operand t =>
      dsimp only
      cases following s.instruction counter operand.1 with
      | error e => rfl
      | ok next =>
        dsimp only
        cases toAddress next <;> rfl

end SicXe.Assembly
