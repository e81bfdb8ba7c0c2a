/-!
# Numerals

Reading and writing whole numbers. A numeral is read to its exact value first; whether that value
fits a field is a question of its own (`byte?` here, `Word.Fits` for values).
-/
namespace SicXe.Text

/-- The value of a digit in bases up to sixteen, in either case. -/
def digitValue? (c : Char) : Option Nat :=
  if '0' ≤ c ∧ c ≤ '9' then some (c.toNat - 48)
  else if 'a' ≤ c ∧ c ≤ 'f' then some (c.toNat - 87)
  else if 'A' ≤ c ∧ c ≤ 'F' then some (c.toNat - 55)
  else none

/-- The value of one digit of a base. -/
def digitIn? (base : Nat) (c : Char) : Option Nat := (digitValue? c).filter (· < base)

/-- Reads digits onto the value of those before them. -/
def digitsOnto (base : Nat) : Nat → List Char → Option Nat
  | value, [] => some value
  | value, c :: rest =>
    match digitIn? base c with
    | some digit => digitsOnto base (value * base + digit) rest
    | none => none

/-- The value of a numeral that is digits only, and at least one. -/
def natural? (base : Nat) (text : List Char) : Option Nat :=
  if text.isEmpty then none else digitsOnto base 0 text

/-- An unsigned numeral after at most one plus sign, up to 255. -/
def byte? (base : Nat) (text : List Char) : Option UInt8 :=
  let digits := match text with
    | '+' :: rest => rest
    | _ => text
  match natural? base digits with
  | some value => if value < 256 then some (UInt8.ofNat value) else none
  | none => none

/-- A decimal integer with at most one sign. -/
def integer? : List Char → Option Int
  | '+' :: rest => (natural? 10 rest).map Int.ofNat
  | '-' :: rest => (natural? 10 rest).map fun value => -Int.ofNat value
  | text => (natural? 10 text).map Int.ofNat

/-- Whether the text is a decimal integer, of any size. -/
def isInteger (text : List Char) : Bool := (integer? text).isSome

/-- A number in base sixteen with upper-case digits and no leading zero. -/
def upperHex (n : Nat) : List Char := (Nat.toDigits 16 n).map Char.toUpper

/-- A byte as two upper-case digits. -/
def byteHex (b : UInt8) : List Char := (upperHex (b.toNat / 16)) ++ (upperHex (b.toNat % 16))

/-- Bytes as upper-case digits, two for each. -/
def bytesHex (bytes : List UInt8) : String := String.ofList (bytes.flatMap byteHex)

end SicXe.Text
