/-!
# Command line arguments

What a command line can ask for, and the standard way to write that down: options have a letter and a
name. Letters may be run together; the value of an option follows its letter or name at once, after an
equals sign, or as the next argument. After two dashes, and wherever an argument does not start with a
dash, stand input files. No option may be given twice.
-/
namespace SicXe.CommandLine

/-- What a command line asks for. -/
structure Invocation where
  inputs : List String
  opcodes : Option String
  symtab : Option String
  lookup : Option String
  map : Option String
  dump : Bool
  keepGoing : Bool
  verbose : Bool
  deriving DecidableEq, Repr

/-- Why a command line asks for nothing to be assembled. -/
inductive Stop where
  | help | version | misuse
  deriving DecidableEq, Repr

def Stop.exitCode : Stop → UInt32
  | help => 0
  | version => 0
  | misuse => 2

/-- The options that name a file. -/
inductive FileOption where
  | opcodes | symtab | lookup | map
  deriving DecidableEq, Repr

inductive Switch where
  | dump | keepGoing | verbose
  deriving DecidableEq, Repr

inductive Flag where
  | file (option : FileOption)
  | switch (s : Switch)
  | stop (s : Stop)
  deriving DecidableEq, Repr

/-- The options by letter and name. -/
def flags : List (Char × String × Flag) :=
  [('p', "opcodes", .file .opcodes), ('s', "symtab", .file .symtab),
   ('l', "lookup", .file .lookup), ('m', "map", .file .map),
   ('d', "dump", .switch .dump), ('k', "keep-going", .switch .keepGoing),
   ('v', "verbose", .switch .verbose),
   ('h', "help", .stop .help), ('V', "version", .stop .version)]

def Flag.ofLetter? (letter : Char) : Option Flag :=
  (flags.find? (·.1 = letter)).map (·.2.2)

def Flag.ofName? (name : List Char) : Option Flag :=
  (flags.find? (·.2.1.toList = name)).map (·.2.2)

namespace Invocation

/-- Before any argument is read. -/
def empty : Invocation := ⟨[], none, none, none, none, false, false, false⟩

def file (i : Invocation) : FileOption → Option String
  | .opcodes => i.opcodes
  | .symtab => i.symtab
  | .lookup => i.lookup
  | .map => i.map

def switch (i : Invocation) : Switch → Bool
  | .dump => i.dump
  | .keepGoing => i.keepGoing
  | .verbose => i.verbose

/-- Sets the value of an option that has none. -/
def setFile (i : Invocation) (option : FileOption) (path : List Char) : Except Stop Invocation :=
  let path := some (String.ofList path)
  if (i.file option).isSome then .error .misuse
  else match option with
    | .opcodes => .ok { i with opcodes := path }
    | .symtab => .ok { i with symtab := path }
    | .lookup => .ok { i with lookup := path }
    | .map => .ok { i with map := path }

/-- Turns on a switch that is off. -/
def turnOn (i : Invocation) (s : Switch) : Except Stop Invocation :=
  if i.switch s then .error .misuse
  else match s with
    | .dump => .ok { i with dump := true }
    | .keepGoing => .ok { i with keepGoing := true }
    | .verbose => .ok { i with verbose := true }

def addInput (i : Invocation) (path : String) : Invocation := { i with inputs := i.inputs ++ [path] }

/-- What has been read so far, and the option whose value must come next. -/
abbrev Reading := Invocation × Option FileOption

/-- Reads letters that are run together. -/
def readLetters (i : Invocation) : List Char → Except Stop Reading
  | [] => .ok (i, none)
  | letter :: rest =>
    match Flag.ofLetter? letter with
    | none => .error .misuse
    | some (.stop s) => .error s
    | some (.switch s) =>
      match i.turnOn s with
      | .ok i => readLetters i rest
      | .error s => .error s
    | some (.file option) =>
      match rest with
      | [] => .ok (i, some option)
      | '=' :: path => (i.setFile option path).map (·, none)
      | path => (i.setFile option path).map (·, none)

/-- Reads a name, with the value after its equals sign if it has one. -/
def readName (i : Invocation) (text : List Char) : Except Stop Reading :=
  let name := text.takeWhile (· ≠ '=')
  match Flag.ofName? name, text.dropWhile (· ≠ '=') with
  | some (.file option), [] => .ok (i, some option)
  | some (.file option), _ :: path => (i.setFile option path).map (·, none)
  | some (.switch s), [] => (i.turnOn s).map (·, none)
  | some (.stop s), [] => .error s
  | _, _ => .error .misuse

/-- Reads one argument other than two dashes. An argument with a dash in front is no value. -/
def readArgument (r : Reading) (argument : String) : Except Stop Reading :=
  match r.2, argument.toList with
  | some _, '-' :: _ :: _ => .error .misuse
  | some option, path => (r.1.setFile option path).map (·, none)
  | none, '-' :: '-' :: name => r.1.readName name
  | none, '-' :: letter :: rest => r.1.readLetters (letter :: rest)
  | none, _ => .ok (r.1.addInput argument, none)

/-- Reads arguments to the end, where no value may be missing. -/
def readArguments (r : Reading) : List String → Except Stop Invocation
  | [] => if r.2.isSome then .error .misuse else .ok r.1
  | argument :: rest =>
    if argument = "--" then
      if r.2.isSome then .error .misuse else .ok { r.1 with inputs := r.1.inputs ++ rest }
    else match readArgument r argument with
      | .ok r => readArguments r rest
      | .error s => .error s

/-- The input that is read if none is named. -/
def defaultInput : String := "main.asm"

/-- Reads a command line. -/
def ofArguments (arguments : List String) : Except Stop Invocation :=
  (readArguments (empty, none) arguments).map fun i =>
    if i.inputs.isEmpty then i.addInput defaultInput else i

/-- All files that an invocation reads. -/
def readPaths (i : Invocation) : List String :=
  i.opcodes.toList ++ i.symtab.toList ++ i.inputs ++ i.lookup.toList

end Invocation

end SicXe.CommandLine
