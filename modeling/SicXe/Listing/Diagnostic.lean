import SicXe.Assembly.Program
import SicXe.Listing.Row

/-!
# Diagnostics

A message about an input, most often with the place it is about: file, line number and the line as it
stands there.
-/
namespace SicXe.Listing

open Assembly (Program ResolvedLine)
open Text (Span Styled)

inductive Severity where
  | error | warning | note
  deriving DecidableEq, Repr

/-- The word at the head of a message. -/
def Severity.head : Severity → Span
  | error => ⟨[.red, .bold], "error"⟩
  | warning => ⟨[.yellow, .bold], "warn"⟩
  | note => ⟨[.green, .bold], "note"⟩

/-- A line of a file. -/
structure Location where
  file : String
  line : Nat
  text : String
  deriving DecidableEq, Repr

/-- The lines that show a location. -/
def Location.lines (l : Location) : List Styled :=
  let bar : Styled := [.of "      ", ⟨[.blue], "|"⟩]
  [[.of "     ", ⟨[.blue], "-->"⟩, .of " ", ⟨[.underline], l.file ++ ":" ++ toString l.line⟩],
    bar, [.of " ", ⟨[.blue], lineField l.line ++ " |"⟩, .of (" " ++ l.text)], bar]

structure Diagnostic where
  severity : Severity
  body : Styled
  location : Option Location
  deriving DecidableEq, Repr

namespace Diagnostic

def lines (d : Diagnostic) : List Styled :=
  (d.severity.head :: Span.of ": " :: d.body) ::
    (d.location.map Location.lines).getD []

/-- A message about a line. -/
def located (severity : Severity) (message : String) (location : Location) : Diagnostic :=
  ⟨severity, [.of message], some location⟩

/-- A fault of a line of a file. -/
def ofFault (file : String) (f : Fault) : Diagnostic :=
  .located .error f.error.message ⟨file, f.line, f.text⟩

/-- The line that first defined a label. -/
def firstDefinition? (p : Program) (label : String) : Option ResolvedLine :=
  p.resolved.find? fun l => !l.redeclared && (l.label.map Symbol.label) = some label

/-- What there is to say about a label that was known before. A label that no line of the program
first defined has no place to show. -/
def ofRedeclaration (file : String) (p : Program) (l : ResolvedLine) : List Diagnostic :=
  match l.label with
  | none => []
  | some symbol =>
    [.located .warning ("Re-defined label: `" ++ symbol.label ++ "`") ⟨file, l.line, l.text⟩,
      { severity := .note
        body := [.of "Already defined with value ", ⟨[.cyan], Text.hexField .bits24 symbol.value⟩,
          .of ". The first definition is kept."]
        location := (firstDefinition? p symbol.label).map fun first =>
          ⟨file, first.line, first.text⟩ }]

/-- All messages about a program. -/
def ofProgram (file : String) (p : Program) : List Diagnostic :=
  p.redeclarations.flatMap (ofRedeclaration file p) ++ p.faults.map (ofFault file)

end Diagnostic

end SicXe.Listing
