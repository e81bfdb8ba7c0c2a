import SicXe.Literal.Pool
import SicXe.Operand.Basic
import SicXe.Operand.Expression
import SicXe.Register

/-!
# Evaluating an operand column

`resolve` evaluates by the operand's mode against the symbols defined so far; a literal also takes
its place in the pool. `resolveRegisters` and `resolveNames` read the two kinds of list, which use no
table.
-/
namespace SicXe.Operand

/-- An operand that has a value and no bytes. -/
def ofQuantity (text : List Char) (mode : Mode) (q : Quantity) : Operand :=
  ⟨String.ofList text, .addressed mode, q.value, q.relocatable, []⟩

/-- Evaluates an operand without outer blanks that is no constant. -/
def resolveQuantity (symbols : SymbolTable) (mode : Mode) (text : List Char) :
    Except Error Quantity :=
  match mode with
  | .immediate => quantity symbols (text.drop 1)
  | .indirect => symbol symbols (text.drop 1)
  | .indexed =>
    let base := (indexBase? text).getD []
    if (Text.trim base).isEmpty then .error (.expressionSyntax (String.ofList text) .indexed)
    else quantity symbols base
  | .arithmetic => arithmetic symbols text
  | .simple | .literal _ => symbol symbols text

/-- Evaluates a literal of the pool: its value is its address there. -/
def resolvePooled (pool : LiteralPool) (kind : Literal.Kind) (text : List Char) :
    Except Error (Operand × LiteralPool) :=
  match pool.register (String.ofList text) with
  | .error e => .error (.invalidLiteral e)
  | .ok (pooled, pool) =>
    .ok (⟨String.ofList text, .addressed (.literal kind), pooled.address.getD 0, false,
      pooled.bytes⟩, pool)

/-- The kind of a constant outside the pool: an integer, hex digits, or else characters. -/
def constantKind : Literal.Kind → Literal.Kind
  | .decimal => .decimal
  | .constantNumber => .constantNumber
  | _ => .constantString

/-- Evaluates a constant that is not pooled. -/
def resolveConstant (text : List Char) : Except Error Operand :=
  match Literal.parse (String.ofList text) with
  | .error e => .error (.invalidLiteral e)
  | .ok constant =>
    .ok ⟨String.ofList text, .addressed (.literal (constantKind constant.kind)), constant.value,
      false, constant.bytes⟩

/-- Evaluates an operand column. -/
def resolve (symbols : SymbolTable) (pool : LiteralPool) (expression : String) :
    Except Error (Operand × LiteralPool) :=
  let text := Text.trim expression.toList
  match classify text with
  | .literal .pooledNumber => resolvePooled pool .pooledNumber text
  | .literal .pooledString => resolvePooled pool .pooledString text
  | .literal _ => (resolveConstant text).map (·, pool)
  | mode => (resolveQuantity symbols mode text).map fun q => (ofQuantity text mode q, pool)

/-- The code of a register name, or a count of at most fifteen. -/
def registerCode (part : List Char) : Except Error UInt8 :=
  let part := Text.trim part
  match Register.ofName? (String.ofList part) with
  | some r => .ok r.code
  | none =>
    match Text.byte? 10 part with
    | some count =>
      if count ≤ 15 then .ok count else .error (.invalidRegister (String.ofList part))
    | none => .error (.invalidRegister (String.ofList part))

/-- The operand byte of a format 2 instruction. Codes of four bits are shifted in from the right, and
to the left as far as codes are left out. -/
def packCodes (codes : List UInt8) : Nat :=
  codes.foldl (fun word code => word <<< 4 ||| code.toNat) 0 <<< (4 * (2 - codes.length))

/-- One or two registers. How many there are is looked at before what they are. -/
def resolveRegisters (expression : String) : Except Error Operand :=
  let text := Text.trim expression.toList
  let parts := Text.splitAt ',' text
  if parts.isEmpty ∨ 2 < parts.length then
    .error (.expressionSyntax (String.ofList text) .registers)
  else (parts.mapM registerCode).map fun codes =>
    ⟨String.ofList text, .registers, packCodes codes, false, []⟩

/-- Checks that every part is a label. -/
def checkLabels : List (List Char) → Except Label.Error Unit
  | [] => .ok ()
  | part :: rest =>
    match Label.normalize (String.ofList part) with
    | .error e => .error e
    | .ok _ => checkLabels rest

/-- A list of names, which need not be defined. -/
def resolveNames (expression : String) : Except Error Operand :=
  let text := Text.trim expression.toList
  match checkLabels (Text.splitAt ',' text) with
  | .error e => .error (.invalidLabel e)
  | .ok () => .ok ⟨String.ofList text, .names, 0, false, []⟩

end SicXe.Operand
