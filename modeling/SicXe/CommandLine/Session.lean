import SicXe.Assembly.Assembler
import SicXe.Catalog.Standard
import SicXe.Catalog.Table
import SicXe.CommandLine.Arguments
import SicXe.CommandLine.Files
import SicXe.Listing.Diagnostic
import SicXe.Listing.Report
import SicXe.SymbolMap

/-!
# A run of the program

The run goes through its phases in order: load the catalog, load symbols, assemble every input, and
on demand dump listings, look up symbols and write the symbol map. A file that cannot be read or
written, an opcode table that cannot be loaded, or a map that has no text ends it; faults of the inputs
are only counted. How a command line is read and how a map is written down are parameters of a run.
-/
namespace SicXe.CommandLine

open Assembly (Assembler Policy Program)
open Listing (Diagnostic)
open Text (Span Styled)

/-- What ends a run early. -/
inductive Failure where
  | catalog (e : Catalog.Error)
  | unreadable (path : String)
  | unserializable (reason : String)
  | unwritable (path : String)
  deriving DecidableEq, Repr

def Failure.message : Failure → String
  | catalog e => e.message
  | unreadable path => "Failed to open file: " ++ path
  | unserializable reason => "Failed to serialize map: " ++ reason
  | unwritable path => "Failed to create file: " ++ path

/-- How command lines are read and symbol maps are written down. Either may be refused. -/
structure Formats where
  parse : List String → Except Stop Invocation
  emit : SymbolMap → Except String String

/-- Options by letter and name, and maps in YAML, which has a text for each. -/
def Formats.standard : Formats := ⟨Invocation.ofArguments, fun m => .ok m.toYaml⟩

/-- Part of a run. It keeps the lines of output said so far, also if it fails. -/
abbrev Session := EStateM Failure (List Styled)

/-- What a run leaves behind. -/
structure Result where
  exitCode : UInt32
  output : String
  written : Option (String × String)
  deriving DecidableEq, Repr

namespace Session

def say (lines : List Styled) : Session Unit := modify (· ++ lines)

def sayPlain (line : String) : Session Unit := say [[.of line]]

/-- The text of a file, which has to be valid UTF-8. -/
def read (files : Files) (path : String) : Session String :=
  match (files.read? path).bind String.fromUTF8? with
  | some text => pure text
  | none => throw (.unreadable path)

/-- Names a file that is about to be read, and reads it. -/
def readShown (files : Files) (path : String) : Session String := do
  sayPlain ("  < " ++ path)
  read files path

/-- The first phase. -/
def loadCatalog (files : Files) (table : Option String) : Session Catalog := do
  sayPlain "1. Load Instruction Catalog"
  let catalog ← match table with
    | none => pure Catalog.standard
    | some path =>
      match Catalog.ofTable (← readShown files path) with
      | .ok catalog => pure catalog
      | .error e => throw (.catalog e)
  sayPlain ("  " ++ toString catalog.size ++ " instructions")
  return catalog

/-- Defines the symbol of one line of a symbol file. Blank lines have none. -/
def seedLine (file : String) (number : Nat) (line : String) (t : SymbolTable) :
    SymbolTable × List Diagnostic :=
  if (Text.trim line.toList).isEmpty then (t, [])
  else match t.seed line with
    | .ok (.inserted _, t) => (t, [])
    | .ok (.existing symbol, t) =>
      (t, [.located .warning ("Re-defined symbol: `" ++ symbol.label ++ "`") ⟨file, number, line⟩])
    | .error e => (t, [.located .error e.message ⟨file, number, line⟩])

/-- Defines the symbols of lines with ascending numbers. Lines that cannot be read are left out. -/
def seedLines (file : String) (number : Nat) (t : SymbolTable) :
    List String → SymbolTable × List Diagnostic
  | [] => (t, [])
  | line :: rest =>
    let (t, diagnostics) := seedLine file number line t
    let (t, following) := seedLines file (number + 1) t rest
    (t, diagnostics ++ following)

/-- The number of messages that are errors. -/
def errorCount (diagnostics : List Diagnostic) : Nat :=
  diagnostics.countP (·.severity = .error)

/-- Says messages, and counts the errors among them. -/
def tell (diagnostics : List Diagnostic) : Session Nat := do
  say (diagnostics.flatMap Diagnostic.lines)
  return errorCount diagnostics

/-- The second phase: the symbols that every input starts with, and the number of errors. -/
def loadSymbols (files : Files) (symtab : Option String) : Session (SymbolTable × Nat) := do
  sayPlain "2. Load Symbols"
  let (symbols, errors) ← match symtab with
    | none => pure (SymbolTable.empty, 0)
    | some path =>
      let (symbols, diagnostics) :=
        seedLines path 1 .empty (Text.linesOf (← readShown files path))
      pure (symbols, ← tell diagnostics)
  sayPlain ("  " ++ toString symbols.size ++ " symbols")
  return (symbols, errors)

/-- The row of a line that has just been resolved. -/
def progressRow : Assembly.Outcome → Option Styled
  | .resolved l => some (.of "  " :: Listing.resolvedRow l)
  | _ => none

/-- The last lines about an assembled input. -/
def summary (p : Program) : List Styled :=
  p.halted.toList.map (fun f => [.of "  ", ⟨[.red], "stopped at line " ++ toString f.line⟩]) ++
    [[.of "  start ", ⟨[.cyan], Text.hexField .bits32 p.start⟩, .of " length ",
      ⟨[.cyan], Text.hexField .bits32 p.length⟩]]

/-- Assembles one input. -/
def assemble (files : Files) (verbose : Bool) (assembler : Assembler) (path : String) :
    Session (Program × Nat) := do
  let source ← readShown files path
  let (assembler, halted) := assembler.stepAll 1 (Text.linesOf source)
  if verbose then say (assembler.outcomes.toList.filterMap progressRow)
  let program := assembler.finish halted
  let errors ← tell (Diagnostic.ofProgram path program)
  say (summary program)
  return (program, errors)

/-- Assembles inputs in order: the programs by path, and the number of errors. -/
def assembleAll (files : Files) (verbose : Bool) (assembler : Assembler) :
    List String → Session (List (String × Program) × Nat)
  | [] => pure ([], 0)
  | path :: rest => do
    let (program, errors) ← assemble files verbose assembler path
    let (programs, following) ← assembleAll files verbose assembler rest
    return ((path, program) :: programs, errors + following)

/-- What looking up a label in a program gives. -/
def lookupRow (symbols : SymbolTable) (label : String) : Styled :=
  match symbols.lookup label with
  | some s =>
    [.of "  ", ⟨[.green], Text.padRight 8 s.label⟩,
      .of (" " ++ Text.hexField .bits24 s.value ++ " " ++ Listing.relocationMark s.relocatable)]
  | none => [.of "  ", ⟨[.yellow], Text.padRight 8 label⟩, .of " not found"]

/-- The fourth phase. -/
def lookUp (files : Files) (programs : List (String × Program)) : Option String → Session Unit
  | none => pure ()
  | some path => do
    sayPlain "4. Look Up Symbols"
    let labels := Text.wordsOf (← readShown files path)
    say (programs.flatMap fun (file, p) =>
      [Span.of ("  [" ++ file ++ "]")] :: labels.map (lookupRow p.symbols))

/-- The symbol map of programs. -/
def mapOf (programs : List (String × Program)) : SymbolMap :=
  programs.foldl (fun m (path, p) => m.add path p) .empty

/-- The last phase: the path and text of the map file. -/
def writeMap (formats : Formats) (files : Files) (programs : List (String × Program)) :
    Option String → Session (Option (String × String))
  | none => pure none
  | some path => do
    sayPlain "5. Write Symbol Map"
    sayPlain ("  > " ++ path)
    match formats.emit (mapOf programs) with
    | .error reason => throw (.unserializable reason)
    | .ok text =>
      if files.canWrite path then return some (path, text)
      else throw (.unwritable path)

/-- All phases: the number of errors, and the map file. -/
def phases (formats : Formats) (i : Invocation) (files : Files) :
    Session (Nat × Option (String × String)) := do
  let catalog ← loadCatalog files i.opcodes
  let (symbols, seedErrors) ← loadSymbols files i.symtab
  sayPlain "3. Resolve Lines"
  let policy := if i.keepGoing then Policy.recover else .abort
  let (programs, errors) ← assembleAll files i.verbose (.new catalog symbols policy) i.inputs
  if i.dump then say (programs.flatMap fun (path, p) => Listing.report path p)
  lookUp files programs i.lookup
  let written ← writeMap formats files programs i.map
  return (seedErrors + errors, written)

/-- The line that ends a run with errors. -/
def closing (errors : Nat) : List Styled :=
  if errors = 0 then [] else [[⟨[.red, .bold], toString errors ++ " error(s)"⟩]]

def text (lines : List Styled) : String := String.join (lines.map fun line => line.render ++ "\n")

/-- Runs an invocation. What ends a run early counts as its only error. -/
def run (formats : Formats) (i : Invocation) (files : Files) : Result :=
  match EStateM.run (phases formats i files) [[.of "SIC/XE Assembler (pass 1)"]] with
  | .ok (errors, written) lines =>
    ⟨if errors = 0 then 0 else 1, text (lines ++ closing errors), written⟩
  | .error failure lines =>
    let message : Diagnostic := ⟨.error, [.of failure.message], none⟩
    ⟨1, text (lines ++ message.lines ++ closing 1), none⟩

end Session

/-- Runs a command line. A command line that asks for nothing to be assembled says nothing here. -/
def Formats.run (formats : Formats) (arguments : List String) (files : Files) : Result :=
  match formats.parse arguments with
  | .ok i => Session.run formats i files
  | .error stop => ⟨stop.exitCode, "", none⟩

def run (arguments : List String) (files : Files) : Result := Formats.standard.run arguments files

end SicXe.CommandLine
