import SicXe.Text.Numeral

/-!
# Plain scalars that read as numbers

A YAML reader takes some plain texts for integers or floating point numbers. A text that is meant as
text must not be written plainly if it is one of these.
-/
namespace SicXe.Yaml

/-- Without one sign in front. -/
def afterSign : List Char → List Char
  | '+' :: rest => rest
  | '-' :: rest => rest
  | text => text

/-- The value of digits after the mark of their base, hexadecimal, octal or binary. -/
def markedNatural? : List Char → Option Nat
  | '0' :: 'x' :: digits => Text.natural? 16 digits
  | '0' :: 'o' :: digits => Text.natural? 8 digits
  | '0' :: 'b' :: digits => Text.natural? 2 digits
  | _ => none

/-- The greatest integer of 128 bits. -/
def maxUnsigned : Nat := 0xFFFFFFFFFFFFFFFFFFFFFFFFFFFFFFFF

/-- What the lowest integer of 128 bits in two's complement is below zero. -/
def maxBelowZero : Nat := 0x80000000000000000000000000000000

/-- An integer in a marked base that fits in 128 bits, with or without a sign. -/
def isMarkedInteger (text : List Char) : Bool :=
  match markedNatural? (afterSign text) with
  | some value => value ≤ if text.head? = some '-' then maxBelowZero else maxUnsigned
  | none => false

/-- Digits with a needless zero in front are no number, but a reader may stumble over them. -/
def isZeroLed (text : List Char) : Bool :=
  match afterSign text with
  | '0' :: rest => !rest.isEmpty && rest.all Char.isDigit
  | _ => false

def isInfinity (text : List Char) : Bool :=
  [".inf", ".Inf", ".INF"].contains (String.ofList (afterSign text))

def isNotANumber (text : List Char) : Bool :=
  [".nan", ".NaN", ".NAN"].contains (String.ofList text)

/-- Decimal digits with a point and an exponent: the number is `digits` times a power of ten. -/
structure Decimal where
  digits : List Char
  exponent : Int
  deriving DecidableEq, Repr

/-- The exponent part of a decimal, which may be left out. -/
def exponent? : List Char → Option Int
  | [] => some 0
  | c :: rest =>
    if c = 'e' ∨ c = 'E' then Text.integer? rest else none

/-- Reads a decimal without its sign. A point needs a digit on one side of it. -/
def Decimal.ofText? (text : List Char) : Option Decimal :=
  let whole := text.takeWhile Char.isDigit
  let rest := text.dropWhile Char.isDigit
  let (fraction, rest) := match rest with
    | '.' :: rest => (rest.takeWhile Char.isDigit, rest.dropWhile Char.isDigit)
    | _ => ([], rest)
  if (whole ++ fraction).isEmpty then none
  else (exponent? rest).map fun e => ⟨whole ++ fraction, e - fraction.length⟩

/-- The least number that rounds to infinity as a floating point number of 64 bits: half a unit above
the greatest finite one. -/
def overflow : Nat := 0x3FFFFFFFFFFFFF <<< 970

/-- Whether a decimal is finite as a floating point number of 64 bits. Powers of ten are only worked
out where they decide. -/
def Decimal.isFinite (d : Decimal) : Bool :=
  let value := (Text.natural? 10 d.digits).getD 0
  if value = 0 ∨ d.digits.length + d.exponent ≤ 308 then true
  else if 400 < d.exponent then false
  else value * Nat.pow 10 d.exponent.toNat < overflow * Nat.pow 10 (-d.exponent).toNat

/-- Whether a plain text reads as a number, or as digits that are nearly one. -/
def readsAsNumber (text : List Char) : Bool :=
  isMarkedInteger text || isZeroLed text || isInfinity text || isNotANumber text ||
    ((Decimal.ofText? (afterSign text)).map Decimal.isFinite).getD false

end SicXe.Yaml
