import SicXe.Text.Blank
import SicXe.Text.Numeral
import SicXe.Word

/-!
# Literals

A constant written in an operand: `C` and characters or `X` and hex digits between apostrophes, or
a decimal integer. With `=` in front a quoted constant is a literal of the pool. Whatever its form,
a constant is its bytes; two are the same when their bytes are.
-/
namespace SicXe

namespace Literal

/-- How a constant was written. -/
inductive Kind where
  | pooledNumber | pooledString | constantNumber | constantString | decimal
  deriving DecidableEq, Repr

/-- A text without its outer blanks that is in none of the forms. -/
structure Error where
  text : String
  deriving DecidableEq, Repr

def Error.message (e : Error) : String :=
  "Invalid literal `" ++ e.text ++
    "`: expected =C'chars', =X'hex', C'chars', X'hex' or a decimal integer"

/-- The character around a quoted constant. -/
def quote : Char := '\x27'

end Literal

/-- A constant, with its place in the pool if it has one. -/
structure Literal where
  expression : String
  kind : Literal.Kind
  bytes : List UInt8
  address : Option Int
  deriving DecidableEq, Repr

namespace Literal

/-- A decimal integer that is a value. -/
def decimal? (text : List Char) : Option Int := (Text.integer? text).filter Word.fits

/-- Character codes; characters outside ASCII have none. -/
def characterBytes? (text : List Char) : Option (List UInt8) :=
  if text.all fun c => c.toNat < 128 then some (text.map fun c => .ofNat c.toNat) else none

/-- The values of hex digits. -/
def hexDigits? (text : List Char) : Option (List Nat) := text.mapM Text.digitValue?

/-- Digits two by two, from an even count of them. -/
def packPairs : List Nat → List UInt8
  | high :: low :: rest => .ofNat (high * 16 + low) :: packPairs rest
  | _ => []

/-- Hex digits packed two per byte; an odd count has a zero in front. -/
def packDigits (digits : List Nat) : List UInt8 :=
  packPairs (if digits.length % 2 = 1 then 0 :: digits else digits)

/-- The bytes that hex digits stand for, if there are any digits. -/
def hexBytes? (text : List Char) : Option (List UInt8) :=
  if text.isEmpty then none else (hexDigits? text).map packDigits

/-- What stands between the apostrophes of a text that has one at each end. -/
def quoted? : List Char → Option (List Char)
  | [] => none
  | first :: rest =>
    if first = quote ∧ rest.getLast? = some quote ∧ rest.dropLast ≠ [] then some rest.dropLast
    else none

/-- The bytes of a decimal integer: its 24-bit word in as few bytes as hold it. -/
def decimalBytes (value : Int) : List UInt8 :=
  (hexBytes? (Text.upperHex (Word.low value))).getD []

/-- The kind and bytes of a marker and the text after it. -/
def quotedConstant? (pooled : Bool) : List Char → Option (Kind × List UInt8)
  | [] => none
  | marker :: rest =>
    match marker.toUpper, quoted? rest with
    | 'C', some text =>
      (characterBytes? text).map (if pooled then Kind.pooledString else .constantString, ·)
    | 'X', some text =>
      (hexBytes? text).map (if pooled then Kind.pooledNumber else .constantNumber, ·)
    | _, _ => none

/-- The kind and bytes of a text without outer blanks. -/
def constant? : List Char → Option (Kind × List UInt8)
  | '=' :: body => quotedConstant? true body
  | body =>
    match decimal? body with
    | some value => some (.decimal, decimalBytes value)
    | none => quotedConstant? false body

/-- Reads a constant. It is in no pool yet. -/
def parse (expression : String) : Except Error Literal :=
  let text := Text.trim expression.toList
  match constant? text with
  | some (kind, bytes) => .ok ⟨String.ofList text, kind, bytes, none⟩
  | none => .error ⟨String.ofList text⟩

/-- Whether a text is to be read as a constant. Whatever starts with `=` is, so that a malformed
literal is reported as one and not as an unknown symbol. A lone pair of a marker and an apostrophe
is no constant. -/
def isConstantForm (text : List Char) : Bool :=
  match Text.trim text with
  | '=' :: _ => true
  | marker :: first :: rest =>
    (marker.toUpper = 'C' || marker.toUpper = 'X') && first = quote &&
      rest.getLast? = some quote
  | _ => false

def isPooled (l : Literal) : Bool := l.kind = .pooledNumber || l.kind = .pooledString

/-- Bytes read into a 32-bit register, of which the low 24 bits are kept. -/
def wordOfBytes (bytes : List UInt8) : UInt32 :=
  let read : UInt32 := bytes.foldl (fun word byte => (word <<< 8) ||| byte.toUInt32) 0
  read &&& 0xFFFFFF

/-- The number that a constant stands for in an operand: an integer itself, the word of hex digits,
the code of a first character. -/
def value (l : Literal) : Int :=
  match l.kind with
  | .decimal => (decimal? l.expression.toList).getD 0
  | .pooledNumber | .constantNumber => (wordOfBytes l.bytes).toNat
  | .pooledString | .constantString => (l.bytes.head?.getD 0).toNat

/-- The bytes in hex. -/
def hex (l : Literal) : String := Text.bytesHex l.bytes

/-- Whether two constants are the same one, however they are written. -/
def same (a b : Literal) : Bool := a.bytes = b.bytes

end Literal

end SicXe
