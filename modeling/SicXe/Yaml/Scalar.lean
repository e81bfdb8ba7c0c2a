import SicXe.Text.Padding
import SicXe.Yaml.Number

/-!
# Scalars

How a text is written in YAML so that it reads back as that text: plainly if that is safe, between
apostrophes if it is not, and with escapes if some character cannot be shown.
-/
namespace SicXe.Yaml

inductive Style where
  | plain | single | double
  deriving DecidableEq, Repr

/-- The texts that read as null or as a truth value. -/
def reserved : List String :=
  ["", "null", "Null", "NULL", "~", "true", "True", "TRUE", "false", "False", "FALSE"]

/-- A character that starts something other than a plain scalar. -/
def isIndicator (c : Char) : Bool :=
  [',', '[', ']', '\x7b', '\x7d', '#', '&', '*', '!', '|', '>', '\x27', '"', '%', '@', '\x60'].contains c

def isBreak (c : Char) : Bool := ['\n', '\x0d', '\x85', '\u2028', '\u2029'].contains c

/-- A blank or a line break. -/
def isGap (c : Char) : Bool := c = ' ' || c = '\t' || isBreak c

/-- Whether a token ends before the text. -/
def endsToken : List Char → Bool
  | [] => true
  | c :: _ => isGap c

/-- Whether some colon would end a key. -/
def hasKeyEnd : List Char → Bool
  | [] => false
  | c :: rest => (c = ':' && endsToken rest) || hasKeyEnd rest

/-- Whether some number sign would start a comment. -/
def hasComment : List Char → Bool
  | [] => false
  | c :: rest => (isGap c && rest.head? = some '#') || hasComment rest

/-- Whether the text starts with a mark of block structure or of a document. -/
def startsStructure : List Char → Bool
  | '-' :: '-' :: '-' :: _ => true
  | '.' :: '.' :: '.' :: _ => true
  | c :: rest => isIndicator c || ((c = '-' || c = '?' || c = ':') && endsToken rest)
  | [] => false

/-- Whether a text cannot be plain because of what its characters mean. -/
def hasStructure (text : List Char) : Bool :=
  startsStructure text || hasKeyEnd text || hasComment text || text.head? = some ' ' ||
    text.getLast? = some ' '

/-- Whether a character is written as it is on one line. -/
def isPrintable (c : Char) : Bool :=
  (0x20 ≤ c.toNat && c.toNat ≤ 0x7E) ||
    (0xA0 ≤ c.toNat && !isBreak c && c.toNat ≠ 0xFEFF && c.toNat ≠ 0xFFFE && c.toNat ≠ 0xFFFF)

def styleOf (text : List Char) : Style :=
  if !text.all isPrintable then .double
  else if reserved.contains (String.ofList text) || readsAsNumber text || hasStructure text then
    .single
  else .plain

/-- Between apostrophes an apostrophe is written twice. -/
def doubleQuotes (text : List Char) : List Char :=
  text.flatMap fun c => if c = '\x27' then ['\x27', '\x27'] else [c]

/-- A character code in hex, in two, four or eight digits. -/
def escapeCode (code : Nat) : String :=
  let (mark, width) := if code ≤ 0xFF then ("x", 2) else if code ≤ 0xFFFF then ("u", 4) else ("U", 8)
  mark ++ Text.padLeft width '0' (String.ofList (Text.upperHex code))

/-- A character between quotation marks. -/
def escaped (c : Char) : String :=
  match c with
  | '"' => "\\\""
  | '\\' => "\\\\"
  | '\x00' => "\\0"
  | '\x07' => "\\a"
  | '\x08' => "\\b"
  | '\t' => "\\t"
  | '\n' => "\\n"
  | '\x0b' => "\\v"
  | '\x0c' => "\\f"
  | '\x0d' => "\\r"
  | '\x1b' => "\\e"
  | '\x85' => "\\N"
  | '\u2028' => "\\L"
  | '\u2029' => "\\P"
  | _ => if isPrintable c then c.toString else "\\" ++ escapeCode c.toNat

/-- A text as a scalar. -/
def scalar (text : String) : String :=
  match styleOf text.toList with
  | .plain => text
  | .single => "'" ++ String.ofList (doubleQuotes text.toList) ++ "'"
  | .double => "\"" ++ String.join (text.toList.map escaped) ++ "\""

end SicXe.Yaml
