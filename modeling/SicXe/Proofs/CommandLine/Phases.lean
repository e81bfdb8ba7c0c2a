import Mathlib.Algebra.GroupWithZero.Nat
import SicXe.CommandLine.Session
import SicXe.Proofs.SymbolMap

/-!
# What the phases of a run come to

Each phase either comes to a value that is determined by the files and formats alone, or ends the run
(`Yields`, `Fails`); which of them, these decide. What has been said before a phase does not matter, and no
phase but the last says how many errors there were. The values are those of `Invocation.programs`,
`Invocation.errors` and `Invocation.symbolMap`, which know nothing of output.
-/
namespace SicXe.CommandLine

open Assembly (Assembler Policy Program)
open Listing (Diagnostic)
open Text (Span Styled)

/-! ### What a run is about -/

/-- The text of a file that can be read and is UTF-8. -/
def Files.text? (files : Files) (path : String) : Option String :=
  (files.read? path).bind String.fromUTF8?

def Files.textOf (files : Files) (path : String) : String := (files.text? path).getD ""

namespace Invocation

variable (formats : Formats) (i : Invocation) (files : Files)

/-- The catalog that every input is assembled with, if its table can be loaded. -/
def catalog? : Option Catalog :=
  match i.opcodes with
  | none => some .standard
  | some path => (files.text? path).bind fun text => (Catalog.ofTable text).toOption

/-- The lines of the symbol file that are not blank. -/
def entries : List String :=
  match i.symtab with
  | none => []
  | some path => (Text.linesOf (files.textOf path)).filter fun line => !(Text.trim line.toList).isEmpty

/-- A table after one line of a symbol file, which is left out if it is no entry. -/
def seedEntry (t : SymbolTable) (line : String) : SymbolTable :=
  match Symbol.ofEntry line with
  | .ok symbol => (t.insert symbol).2
  | .error _ => t

/-- The symbols that every input starts with. -/
def seeded : SymbolTable := (i.entries files).foldl seedEntry .empty

def badEntries : Nat := (i.entries files).countP fun line => !(Symbol.ofEntry line).isOk

def policy : Policy := if i.keepGoing then .recover else .abort

/-- The program of one input, assembled on its own. -/
def program (c : Catalog) (path : String) : Program :=
  (Assembler.new c (i.seeded files) i.policy).run (Text.linesOf (files.textOf path))

def programs (c : Catalog) : List (String × Program) :=
  i.inputs.map fun path => (path, i.program files c path)

/-- The entries of those programs, in the order in which their paths are first named. -/
def symbolMap (c : Catalog) : SymbolMap :=
  ⟨i.inputs.eraseDups.map fun path => (path, .ofProgram (i.program files c path))⟩

/-- All errors of a run that reads everything: bad entries, and faults of the programs. -/
def errors (c : Catalog) : Nat :=
  i.badEntries files + ((i.programs files c).map fun p => p.2.faults.length).sum

/-- Everything that is to be read can be read, and the catalog is `c`. -/
structure Runs (c : Catalog) : Prop where
  readable : ∀ path ∈ i.readPaths, (files.text? path).isSome = true
  catalog : i.catalog? files = some c

/-- The map can be written if there is to be one: it has a text, and the file takes it. -/
def Writable (c : Catalog) : Prop :=
  ∀ path, i.map = some path →
    files.canWrite path = true ∧ ∃ text, formats.emit (i.symbolMap files c) = .ok text

/-- The path and text of that file. -/
def mapFile? (c : Catalog) : Option (String × String) :=
  i.map.bind fun path => (formats.emit (i.symbolMap files c)).toOption.map (path, ·)

variable {formats i files} {c : Catalog} {path text : String}

theorem writable_of_emitted (named : i.map = some path) (granted : files.canWrite path = true)
    (emitted : formats.emit (i.symbolMap files c) = .ok text) : i.Writable formats files c := by
  intro path' asked
  rw [named, Option.some.injEq] at asked
  exact ⟨asked ▸ granted, text, emitted⟩

theorem mapFile?_eq_some_iff : i.mapFile? formats files c = some (path, text) ↔
    i.map = some path ∧ formats.emit (i.symbolMap files c) = .ok text := by
  unfold mapFile?
  cases formats.emit (i.symbolMap files c) <;> simp [Except.toOption, Option.bind_eq_some_iff]

end Invocation

namespace Session

/-! ### Sessions that come to a value and sessions that fail -/

/-- The line that says how many errors there were. -/
def total (errors : Nat) : Styled := [⟨[.red, .bold], toString errors ++ " error(s)"⟩]

def IsTotal (line : Styled) : Prop := ∃ errors, line = total errors

/-- Whatever was said before, the session comes to this value and says lines that give no total. -/
def Yields {α : Type} (session : Session α) (value : α) : Prop :=
  ∀ before, ∃ lines, EStateM.run session before = .ok value (before ++ lines) ∧ ∀ line ∈ lines, ¬ IsTotal line

/-- Whatever was said before, the session ends the run. -/
def Fails {α : Type} (session : Session α) : Prop :=
  ∀ before, ∃ failure lines, EStateM.run session before = .error failure (before ++ lines)

section Rules

variable {α β : Type} {session : Session α} {next : α → Session β} {value : α} {result : β}

theorem yields_pure (value : α) : Yields (pure value : Session α) value :=
  fun before => ⟨[], by rw [List.append_nil]; rfl, fun _ member => nomatch member⟩

theorem Yields.bind (first : Yields session value) (then_ : Yields (next value) result) :
    Yields (session >>= next) result := by
  intro before
  obtain ⟨lines, ran, plain⟩ := first before
  obtain ⟨further, ran', plain'⟩ := then_ (before ++ lines)
  refine ⟨lines ++ further, ?_, List.forall_mem_append.2 ⟨plain, plain'⟩⟩
  rw [← List.append_assoc, ← ran', EStateM.run_bind, ran]

theorem fails_throw (failure : Failure) : Fails (throw failure : Session α) :=
  fun before => ⟨failure, [], by rw [List.append_nil]; rfl⟩

theorem Fails.bind (first : Fails session) : Fails (session >>= next) := by
  intro before
  obtain ⟨failure, lines, ran⟩ := first before
  exact ⟨failure, lines, by rw [EStateM.run_bind, ran]⟩

theorem Yields.fails (first : Yields session value) (then_ : Fails (next value)) :
    Fails (session >>= next) := by
  intro before
  obtain ⟨lines, ran, _⟩ := first before
  obtain ⟨failure, further, ran'⟩ := then_ (before ++ lines)
  refine ⟨failure, lines ++ further, ?_⟩
  rw [← List.append_assoc, ← ran', EStateM.run_bind, ran]

end Rules

/-! ### Lines that give no total -/

theorem not_isTotal_of_plain (text : String) (rest : Styled) : ¬ IsTotal (.of text :: rest) := by
  rintro ⟨errors, same⟩
  cases same

theorem not_isTotal_of_two (first second : Span) (rest : Styled) :
    ¬ IsTotal (first :: second :: rest) := by
  rintro ⟨errors, same⟩
  cases same

theorem yields_say {lines : List Styled} (plain : ∀ line ∈ lines, ¬ IsTotal line) :
    Yields (say lines) () :=
  fun _ => ⟨lines, rfl, plain⟩

theorem yields_sayPlain (line : String) : Yields (sayPlain line) () :=
  yields_say fun _ member => List.mem_singleton.1 member ▸ not_isTotal_of_plain line []

theorem not_isTotal_of_location (l : Listing.Location) : ∀ line ∈ l.lines, ¬ IsTotal line := by
  simp only [Listing.Location.lines, List.forall_mem_cons]
  refine ⟨?_, ?_, ?_, ?_, List.forall_mem_nil _⟩
  all_goals exact not_isTotal_of_plain _ _

theorem not_isTotal_of_diagnostic (d : Diagnostic) : ∀ line ∈ d.lines, ¬ IsTotal line := by
  refine List.forall_mem_cons.2 ⟨not_isTotal_of_two _ _ _, ?_⟩
  cases d.location with
  | none => exact List.forall_mem_nil _
  | some l => exact not_isTotal_of_location l

theorem yields_tell (diagnostics : List Diagnostic) :
    Yields (tell diagnostics) (errorCount diagnostics) := by
  refine (yields_say fun line member => ?_).bind (yields_pure _)
  obtain ⟨d, _, shown⟩ := List.mem_flatMap.1 member
  exact not_isTotal_of_diagnostic d line shown

/-! ### Files -/

variable {files : Files} {path text : String}

theorem textOf_of_text? (known : files.text? path = some text) : files.textOf path = text := by
  rw [Files.textOf, known]
  rfl

theorem yields_readShown (known : files.text? path = some text) :
    Yields (readShown files path) text := by
  refine (yields_sayPlain _).bind ?_
  unfold Files.text? at known
  unfold read
  rw [known]
  exact yields_pure text

theorem fails_readShown (unknown : files.text? path = none) : Fails (readShown files path) := by
  refine (yields_sayPlain _).fails ?_
  unfold Files.text? at unknown
  unfold read
  rw [unknown]
  exact fails_throw _

variable {i : Invocation}

theorem yields_loadCatalog {c : Catalog} (loads : i.catalog? files = some c) :
    Yields (loadCatalog files i.opcodes) c := by
  unfold Invocation.catalog? at loads
  refine (yields_sayPlain _).bind ?_
  cases table : i.opcodes with
  | none =>
    rw [table] at loads
    cases loads
    exact (yields_pure _).bind ((yields_sayPlain _).bind (yields_pure _))
  | some path =>
    rw [table] at loads
    obtain ⟨text, known, read⟩ := Option.bind_eq_some_iff.1 loads
    refine (yields_readShown known).bind ?_
    cases loaded : Catalog.ofTable text with
    | error e =>
      rw [loaded] at read
      cases read
    | ok c' =>
      rw [loaded] at read
      cases read
      exact (yields_pure _).bind ((yields_sayPlain _).bind (yields_pure _))

theorem fails_loadCatalog (stuck : i.catalog? files = none) : Fails (loadCatalog files i.opcodes) := by
  unfold Invocation.catalog? at stuck
  refine (yields_sayPlain _).fails ?_
  cases table : i.opcodes with
  | none =>
    rw [table] at stuck
    cases stuck
  | some path =>
    rw [table] at stuck
    cases known : files.text? path with
    | none => exact (fails_readShown known).bind
    | some text =>
      refine (yields_readShown known).fails ?_
      cases loaded : Catalog.ofTable text with
      | error e => exact (fails_throw _).bind
      | ok c =>
        simp [known, loaded, Except.toOption] at stuck

/-! ### Symbols -/

theorem seedLine_of_blank {line : String} (blank : (Text.trim line.toList).isEmpty = true)
    (file : String) (number : Nat) (t : SymbolTable) : seedLine file number line t = (t, []) := by
  unfold seedLine
  rw [if_pos blank]

/-- A line that is not blank is an entry or an error. -/
theorem seedLine_of_filled {line : String} (filled : (Text.trim line.toList).isEmpty = false)
    (file : String) (number : Nat) (t : SymbolTable) :
    (seedLine file number line t).1 = Invocation.seedEntry t line ∧
      errorCount (seedLine file number line t).2 = if (Symbol.ofEntry line).isOk then 0 else 1 := by
  unfold seedLine Invocation.seedEntry SymbolTable.seed
  rw [if_neg (by simp [filled])]
  cases read : Symbol.ofEntry line with
  | error e => exact ⟨rfl, rfl⟩
  | ok symbol =>
    dsimp only
    rcases t.insert symbol with ⟨inserted | existing, t'⟩
    · exact ⟨rfl, rfl⟩
    · exact ⟨rfl, rfl⟩

theorem errorCount_append (first second : List Diagnostic) :
    errorCount (first ++ second) = errorCount first + errorCount second := List.countP_append

/-- The lines of a symbol file: its entries are defined, and the others that are not blank counted. -/
theorem seedLines_eq (file : String) (number : Nat) (t : SymbolTable) (lines : List String) :
    let entries := lines.filter fun line => !(Text.trim line.toList).isEmpty
    (seedLines file number t lines).1 = entries.foldl Invocation.seedEntry t ∧
      errorCount (seedLines file number t lines).2 =
        entries.countP fun line => !(Symbol.ofEntry line).isOk := by
  induction lines generalizing number t with
  | nil => exact ⟨rfl, rfl⟩
  | cons line rest ih =>
    cases blank : (Text.trim line.toList).isEmpty with
    | true =>
      obtain ⟨table, count⟩ := ih (number + 1) t
      simp only [seedLines, seedLine_of_blank blank, List.filter_cons, blank, Bool.not_true,
        Bool.false_eq_true, if_false, List.nil_append, table, count, and_self]
    | false =>
      obtain ⟨first, one⟩ := seedLine_of_filled blank file number t
      obtain ⟨table, count⟩ := ih (number + 1) (Invocation.seedEntry t line)
      simp only [seedLines, List.filter_cons, blank, Bool.not_false, if_true, List.foldl_cons,
        List.countP_cons, errorCount_append, one, table, count, first, true_and]
      cases (Symbol.ofEntry line).isOk <;> simp [Nat.add_comm]

theorem yields_loadSymbols (readable : ∀ path, i.symtab = some path → (files.text? path).isSome = true) :
    Yields (loadSymbols files i.symtab) (i.seeded files, i.badEntries files) := by
  unfold Invocation.seeded Invocation.badEntries Invocation.entries
  refine (yields_sayPlain _).bind ?_
  cases file : i.symtab with
  | none => exact (yields_pure _).bind ((yields_sayPlain _).bind (yields_pure _))
  | some path =>
    obtain ⟨text, known⟩ := Option.isSome_iff_exists.1 (readable path file)
    refine (yields_readShown known).bind ?_
    obtain ⟨table, count⟩ := seedLines_eq path 1 .empty (Text.linesOf text)
    rcases read : seedLines path 1 .empty (Text.linesOf text) with ⟨symbols, diagnostics⟩
    rw [read] at table count
    dsimp only at table count ⊢
    rw [textOf_of_text? known, ← table, ← count]
    exact (yields_tell diagnostics).bind ((yields_pure _).bind ((yields_sayPlain _).bind (yields_pure _)))

theorem fails_loadSymbols (named : i.symtab = some path) (unknown : files.text? path = none) :
    Fails (loadSymbols files i.symtab) := by
  refine (yields_sayPlain _).fails ?_
  rw [named]
  exact (fails_readShown unknown).bind

/-! ### Inputs -/

theorem not_isTotal_progress {outcome : Assembly.Outcome} {row : Styled}
    (shown : progressRow outcome = some row) : ¬ IsTotal row := by
  cases outcome with
  | resolved l =>
    cases shown
    exact not_isTotal_of_plain _ _
  | skipped => cases shown
  | faulty fault => cases shown

theorem not_isTotal_summary {p : Program} {line : Styled} (member : line ∈ summary p) :
    ¬ IsTotal line := by
  unfold summary at member
  rcases List.mem_append.1 member with stopped | ends
  · obtain ⟨fault, _, rfl⟩ := List.mem_map.1 stopped
    exact not_isTotal_of_plain _ _
  · rw [List.mem_singleton.1 ends]
    exact not_isTotal_of_plain _ _

theorem errorCount_redeclaration (file : String) (p : Program) (l : Assembly.ResolvedLine) :
    errorCount (Diagnostic.ofRedeclaration file p l) = 0 := by
  unfold Diagnostic.ofRedeclaration
  split
  · rfl
  · rfl

/-- The errors among the messages about a program are its faults. -/
theorem errorCount_ofProgram (file : String) (p : Program) :
    errorCount (Diagnostic.ofProgram file p) = p.faults.length := by
  have redeclared : errorCount (p.redeclarations.flatMap (Diagnostic.ofRedeclaration file p)) = 0 := by
    refine List.countP_eq_zero.2 fun d member => ?_
    obtain ⟨l, _, said⟩ := List.mem_flatMap.1 member
    exact List.countP_eq_zero.1 (errorCount_redeclaration file p l) d said
  have faulty : errorCount (p.faults.map (Diagnostic.ofFault file)) = p.faults.length := by
    rw [errorCount, List.countP_map]
    exact List.countP_eq_length.2 fun _ _ => rfl
  rw [Diagnostic.ofProgram, errorCount_append, redeclared, faulty, Nat.zero_add]

theorem yields_assemble (verbose : Bool) (a : Assembler) (known : files.text? path = some text) :
    Yields (assemble files verbose a path)
      (a.run (Text.linesOf text), (a.run (Text.linesOf text)).faults.length) := by
  refine (yields_readShown known).bind ?_
  have reported (p : Program) :
      Yields (do
        let errors ← tell (Diagnostic.ofProgram path p)
        say (summary p)
        return (p, errors)) (p, p.faults.length) := by
    rw [← errorCount_ofProgram path p]
    exact (yields_tell _).bind
      ((yields_say fun line member => not_isTotal_summary member).bind (yields_pure _))
  unfold Assembler.run
  rcases a.stepAll 1 (Text.linesOf text) with ⟨after, halted⟩
  dsimp only
  cases verbose with
  | false => exact reported (after.finish halted)
  | true =>
    refine (yields_say fun row member => ?_).bind (reported (after.finish halted))
    obtain ⟨outcome, _, shown⟩ := List.mem_filterMap.1 member
    exact not_isTotal_progress shown

/-- The programs of inputs, one by one, and all their faults. -/
theorem yields_assembleAll (verbose : Bool) (a : Assembler) {inputs : List String}
    (readable : ∀ path ∈ inputs, (files.text? path).isSome = true) :
    let programs := inputs.map fun path => (path, a.run (Text.linesOf (files.textOf path)))
    Yields (assembleAll files verbose a inputs)
      (programs, (programs.map fun p => p.2.faults.length).sum) := by
  induction inputs with
  | nil => exact yields_pure _
  | cons path rest ih =>
    obtain ⟨first, later⟩ := List.forall_mem_cons.1 readable
    obtain ⟨text, known⟩ := Option.isSome_iff_exists.1 first
    dsimp only
    rw [List.map_cons, List.map_cons, List.sum_cons, textOf_of_text? known]
    exact (yields_assemble verbose a known).bind ((ih later).bind (yields_pure _))

theorem fails_assembleAll (verbose : Bool) (a : Assembler) {inputs : List String}
    (member : path ∈ inputs) (unknown : files.text? path = none) :
    Fails (assembleAll files verbose a inputs) := by
  induction inputs with
  | nil => cases member
  | cons first rest ih =>
    cases known : files.text? first with
    | none => exact ((fails_readShown known).bind).bind
    | some text =>
      have later : path ∈ rest := by
        rcases List.mem_cons.1 member with rfl | later
        · rw [unknown] at known
          cases known
        · exact later
      exact (yields_assemble verbose a known).fails (ih later).bind

/-! ### The last phases -/

theorem not_isTotal_rows {p : Program} {line : Styled} (member : line ∈ Listing.rows p) :
    ¬ IsTotal line := by
  obtain ⟨outcome, _, shown⟩ := List.mem_filterMap.1 member
  cases outcome with
  | skipped => cases shown
  | resolved l =>
    cases shown
    exact not_isTotal_of_plain _ _
  | faulty fault =>
    cases shown
    exact not_isTotal_of_two _ _ _

theorem not_isTotal_table {α : Type} {rows : List α} {row : α → Styled} {head : String}
    (bars : ∀ entry, ∃ text rest, row entry = Span.of text :: rest) {line : Styled}
    (member : line ∈ [Span.of head] :: rows.map row ++ [Listing.rule]) : ¬ IsTotal line := by
  rcases List.mem_append.1 member with above | last
  · rcases List.mem_cons.1 above with rfl | row_member
    · exact not_isTotal_of_plain _ _
    · obtain ⟨entry, _, rfl⟩ := List.mem_map.1 row_member
      obtain ⟨text, rest, starts⟩ := bars entry
      rw [starts]
      exact not_isTotal_of_plain _ _
  · rw [List.mem_singleton.1 last]
    exact not_isTotal_of_plain _ _

theorem not_isTotal_report {path : String} {p : Program} {line : Styled}
    (member : line ∈ Listing.report path p) : ¬ IsTotal line := by
  unfold Listing.report Listing.listing at member
  simp only [List.mem_append] at member
  rcases member with ((((heading | row) | halted) | rule) | symbols) | literals
  · rw [List.mem_singleton.1 heading]
    exact not_isTotal_of_plain _ _
  · exact not_isTotal_rows row
  · obtain ⟨fault, _, rfl⟩ := List.mem_map.1 halted
    exact not_isTotal_of_two _ _ _
  · rw [List.mem_singleton.1 rule]
    exact not_isTotal_of_plain _ _
  · exact not_isTotal_table (fun _ => ⟨_, _, rfl⟩) symbols
  · exact not_isTotal_table (fun _ => ⟨_, _, rfl⟩) literals

theorem not_isTotal_lookupRow (symbols : SymbolTable) (label : String) :
    ¬ IsTotal (lookupRow symbols label) := by
  unfold lookupRow
  split
  · exact not_isTotal_of_plain _ _
  · exact not_isTotal_of_plain _ _

theorem yields_lookUp (programs : List (String × Program))
    (readable : ∀ path, i.lookup = some path → (files.text? path).isSome = true) :
    Yields (lookUp files programs i.lookup) () := by
  unfold lookUp
  cases named : i.lookup with
  | none => exact yields_pure ()
  | some path =>
    obtain ⟨text, known⟩ := Option.isSome_iff_exists.1 (readable path named)
    refine (yields_sayPlain _).bind ((yields_readShown known).bind (yields_say fun line member => ?_))
    obtain ⟨⟨file, p⟩, _, said⟩ := List.mem_flatMap.1 member
    rcases List.mem_cons.1 said with rfl | row
    · exact not_isTotal_of_plain _ _
    · obtain ⟨label, _, rfl⟩ := List.mem_map.1 row
      exact not_isTotal_lookupRow _ _

theorem fails_lookUp (programs : List (String × Program)) (named : i.lookup = some path)
    (unknown : files.text? path = none) : Fails (lookUp files programs i.lookup) := by
  rw [named]
  exact (yields_sayPlain _).fails (fails_readShown unknown).bind

variable {formats : Formats}

/-- The map that a run builds from its programs has an entry for each path. -/
theorem mapOf_programs (i : Invocation) (files : Files) (c : Catalog) :
    mapOf (i.programs files c) = i.symbolMap files c :=
  SymbolMap.mapOf_map i.inputs (i.program files c)

theorem yields_writeMap {c : Catalog} (writable : i.Writable formats files c) :
    Yields (writeMap formats files (i.programs files c) i.map) (i.mapFile? formats files c) := by
  unfold writeMap Invocation.mapFile?
  cases named : i.map with
  | none => exact yields_pure none
  | some path =>
    obtain ⟨granted, text, emitted⟩ := writable path named
    refine (yields_sayPlain _).bind ((yields_sayPlain _).bind ?_)
    rw [mapOf_programs, emitted]
    dsimp only
    rw [if_pos granted]
    exact yields_pure _

theorem fails_writeMap {c : Catalog} (refused : ¬ i.Writable formats files c) :
    Fails (writeMap formats files (i.programs files c) i.map) := by
  unfold writeMap
  cases named : i.map with
  | none => exact absurd (fun path asked => nomatch named.symm.trans asked) refused
  | some path =>
    refine (yields_sayPlain _).fails ((yields_sayPlain _).fails ?_)
    rw [mapOf_programs]
    cases emitted : formats.emit (i.symbolMap files c) with
    | error reason => exact fails_throw _
    | ok text =>
      dsimp only
      rw [if_neg]
      · exact fails_throw _
      · exact fun granted => refused (Invocation.writable_of_emitted named granted emitted)

/-! ### All phases -/

section Dump

variable {β : Type} {next : Unit → Session β} {result : β} (dump : Bool)
  (programs : List (String × Program))

/-- Listings may be said on the way. -/
theorem yields_dump (then_ : Yields (next ()) result) :
    Yields (if dump = true then
      say (programs.flatMap fun (path, p) => Listing.report path p) >>= next
      else next ()) result := by
  cases dump with
  | false => exact then_
  | true =>
    refine (yields_say fun line member => ?_).bind then_
    obtain ⟨⟨path, p⟩, _, said⟩ := List.mem_flatMap.1 member
    exact not_isTotal_report said

theorem fails_dump (then_ : Fails (next ())) :
    Fails (if dump = true then
      say (programs.flatMap fun (path, p) => Listing.report path p) >>= next
      else next ()) := by
  cases dump with
  | false => exact then_
  | true =>
    refine Yields.fails (yields_say fun line member => ?_) then_
    obtain ⟨⟨path, p⟩, _, said⟩ := List.mem_flatMap.1 member
    exact not_isTotal_report said

end Dump

theorem readable_symtab {c : Catalog} (runs : i.Runs files c) (path : String)
    (named : i.symtab = some path) : (files.text? path).isSome = true :=
  runs.readable path (by simp [Invocation.readPaths, named])

theorem readable_inputs {c : Catalog} (runs : i.Runs files c) :
    ∀ path ∈ i.inputs, (files.text? path).isSome = true :=
  fun path member => runs.readable path (by simp [Invocation.readPaths, member])

theorem readable_lookup {c : Catalog} (runs : i.Runs files c) (path : String)
    (named : i.lookup = some path) : (files.text? path).isSome = true :=
  runs.readable path (by simp [Invocation.readPaths, named])

/-- A run that reads everything and writes its map comes to all of its errors. -/
theorem yields_phases {c : Catalog} (runs : i.Runs files c)
    (writable : i.Writable formats files c) :
    Yields (phases formats i files) (i.errors files c, i.mapFile? formats files c) := by
  refine (yields_loadCatalog runs.catalog).bind ?_
  refine (yields_loadSymbols (readable_symtab runs)).bind ?_
  refine (yields_sayPlain _).bind ?_
  refine (yields_assembleAll i.verbose _ (readable_inputs runs)).bind ?_
  exact yields_dump i.dump _ ((yields_lookUp _ (readable_lookup runs)).bind
    ((yields_writeMap writable).bind (yields_pure _)))

/-- All files of a kind have a text, or there is one that has none. -/
theorem readable_or_not (files : Files) (kind : String → Prop) :
    (∀ path, kind path → (files.text? path).isSome = true) ∨
      ∃ path, kind path ∧ files.text? path = none := by
  rcases Classical.em (∀ path, kind path → (files.text? path).isSome = true) with readable | other
  · exact Or.inl readable
  · obtain ⟨path, refused⟩ := Classical.not_forall.1 other
    obtain ⟨named, unknown⟩ := Classical.not_imp.1 refused
    exact Or.inr ⟨path, named, by simpa using unknown⟩

theorem readable_opcodes {c : Catalog} (loads : i.catalog? files = some c) (path : String)
    (named : i.opcodes = some path) : (files.text? path).isSome = true := by
  rw [Invocation.catalog?, named] at loads
  obtain ⟨text, known, _⟩ := Option.bind_eq_some_iff.1 loads
  rw [known]
  rfl

/-- Any other run fails in the first phase that cannot have what it asks for. -/
theorem fails_phases (stuck : ¬ ∃ c, i.Runs files c ∧ i.Writable formats files c) :
    Fails (phases formats i files) := by
  cases catalog : i.catalog? files with
  | none => exact (fails_loadCatalog catalog).bind
  | some c =>
    refine (yields_loadCatalog catalog).fails ?_
    rcases readable_or_not files (i.symtab = some ·) with symtab | ⟨path, named, unknown⟩
    case inr => exact (fails_loadSymbols named unknown).bind
    refine (yields_loadSymbols symtab).fails ((yields_sayPlain _).fails ?_)
    rcases readable_or_not files (· ∈ i.inputs) with inputs | ⟨path, member, unknown⟩
    case inr => exact (fails_assembleAll i.verbose _ member unknown).bind
    refine (yields_assembleAll i.verbose _ inputs).fails (fails_dump i.dump _ ?_)
    rcases readable_or_not files (i.lookup = some ·) with lookup | ⟨path, named, unknown⟩
    case inr => exact (fails_lookUp _ named unknown).bind
    refine (yields_lookUp _ lookup).fails ?_
    have runs : i.Runs files c := by
      refine ⟨fun path member => ?_, catalog⟩
      simp only [Invocation.readPaths, List.mem_append, Option.mem_toList] at member
      rcases member with ((opcodes | seeds) | input) | labels
      · exact readable_opcodes catalog path opcodes
      · exact symtab path seeds
      · exact inputs path input
      · exact lookup path labels
    exact (fails_writeMap fun writable => stuck ⟨c, runs, writable⟩).bind

end Session

end SicXe.CommandLine
