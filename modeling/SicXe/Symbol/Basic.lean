import SicXe.Symbol.Label
import SicXe.Text.Numeral
import SicXe.Text.Words
import SicXe.Word

/-!
# Symbols

A symbol is a label with a value. The value of a relocatable symbol moves with the program. In text
form a symbol is an entry of three words: value, label, relocatability.
-/
namespace SicXe

structure Symbol where
  label : String
  value : Int
  relocatable : Bool
  multiplyDefined : Bool
  deriving DecidableEq, Repr

namespace Symbol

/-- A symbol under a label in any case, defined once so far. -/
def ofLabel (label : String) (value : Int) (relocatable : Bool) : Except Label.Error Symbol :=
  match Label.normalize label with
  | .ok label => .ok ⟨label, value, relocatable, false⟩
  | .error e => .error e

/-- What is wrong with an entry, the first fault in the order listed. -/
inductive EntryError where
  | wordCount (line : String) (count : Nat)
  | value (word : String)
  | flag (word : String)
  | label (e : Label.Error)
  deriving DecidableEq, Repr

namespace EntryError

/-- The four parts of the message: the field, its text, what is wrong and what is expected. -/
def parts : EntryError → String × String × String × String
  | wordCount line count =>
    ("entry", line, "Invalid number of tokens (" ++ toString count ++ ")",
      "3 tokens [VALUE LABEL RFLAG]")
  | value word => ("value", word, "Not a valid integer", "32 bit integer")
  | flag word => ("rflag", word, "Not a valid boolean value", "[true/false, t/f, 1/0]")
  | label e => ("label", e.label, e.defect.reason, e.defect.expected)

def message (e : EntryError) : String :=
  let (field, actual, reason, expected) := e.parts
  "Invalid symbol " ++ field ++ " `" ++ actual ++ "`: " ++ reason ++ " (expected " ++ expected ++
    ")"

end EntryError

/-- A decimal integer that is a value. -/
def entryValue? (word : List Char) : Option Int := (Text.integer? word).filter Word.fits

/-- The spellings of yes and no, in either case. -/
def entryFlag? (word : List Char) : Option Bool :=
  match String.ofList (word.map Char.toLower) with
  | "true" | "t" | "1" => some true
  | "false" | "f" | "0" => some false
  | _ => none

/-- Reads an entry. -/
def ofEntry (line : String) : Except EntryError Symbol :=
  match Text.words line.toList with
  | [value, label, flag] =>
    match entryValue? value with
    | none => .error (.value (String.ofList value))
    | some value =>
      match entryFlag? flag with
      | none => .error (.flag (String.ofList flag))
      | some relocatable =>
        match ofLabel (String.ofList label) value relocatable with
        | .ok symbol => .ok symbol
        | .error e => .error (.label e)
  | words => .error (.wordCount (String.ofList (Text.trim line.toList)) words.length)

/-- The label as fixed-width output shows it. -/
def shortLabel (s : Symbol) : String := Label.short s.label

end Symbol

end SicXe
