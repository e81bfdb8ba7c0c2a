import Mathlib.Logic.Basic
import SicXe.Proofs.CommandLine.Phases

/-!
# The account that a run gives of itself

A run that can read all its files says how many errors there were, bad entries and faults of all programs
together, and ends well exactly if there were none; any other run ends badly. Whatever faults there were,
the map is written unless a file could not be read or the map has no text, and it holds the programs as
they are assembled one by one. What a run shows on the way, and what it looks up at the end, changes none
of this (`run_accounts`). Nothing is asked of how command lines are read and maps are written down.
-/
namespace SicXe.CommandLine

open Assembly (Program)
open Text (Styled)

namespace Invocation

/-- Nothing is wrong with the files of a run, with the entries and programs in them, or with its map. -/
structure Clean (formats : Formats) (i : Invocation) (files : Files) (c : Catalog) : Prop where
  runs : i.Runs files c
  entries : ∀ line ∈ i.entries files, ∃ symbol, Symbol.ofEntry line = .ok symbol
  programs : ∀ path p, (path, p) ∈ i.programs files c → p.faults = []
  writable : i.Writable formats files c

/-- The same work is asked for. What is shown of it and looked up in it may differ. -/
structure SameWork (i i' : Invocation) : Prop where
  inputs : i'.inputs = i.inputs
  opcodes : i'.opcodes = i.opcodes
  symtab : i'.symtab = i.symtab
  map : i'.map = i.map
  keepGoing : i'.keepGoing = i.keepGoing

/-- The labels to look up, if there are any, can be read. -/
def LooksUp (i : Invocation) (files : Files) : Prop :=
  ∀ path, i.lookup = some path → (files.text? path).isSome = true

variable {formats : Formats} {i i' : Invocation} {files : Files} {c : Catalog}

theorem clean_iff : i.Clean formats files c ↔
    i.Runs files c ∧ i.Writable formats files c ∧ i.errors files c = 0 := by
  have entries : i.badEntries files = 0 ↔
      ∀ line ∈ i.entries files, ∃ symbol, Symbol.ofEntry line = .ok symbol := by
    unfold badEntries
    rw [List.countP_eq_zero]
    refine forall₂_congr fun line _ => ?_
    cases Symbol.ofEntry line <;> simp [Except.isOk, Except.toBool]
  have programs : ((i.programs files c).map fun p => p.2.faults.length).sum = 0 ↔
      ∀ path p, (path, p) ∈ i.programs files c → p.faults = [] := by
    rw [List.sum_eq_zero_iff_forall_eq_nat, List.forall_mem_map]
    simp only [List.length_eq_zero_iff, Prod.forall]
  unfold errors
  rw [Nat.add_eq_zero_iff, entries, programs]
  constructor
  · rintro ⟨runs, no_bad, no_faults, writable⟩
    exact ⟨runs, writable, no_bad, no_faults⟩
  · rintro ⟨runs, writable, no_bad, no_faults⟩
    exact ⟨runs, no_bad, no_faults, writable⟩

/-! ### The same work -/

theorem SameWork.symm (same : SameWork i i') : SameWork i' i :=
  ⟨same.inputs.symm, same.opcodes.symm, same.symtab.symm, same.map.symm, same.keepGoing.symm⟩

theorem SameWork.seeded (same : SameWork i i') : i'.seeded files = i.seeded files := by
  rw [Invocation.seeded, entries, same.symtab]
  rfl

theorem SameWork.badEntries (same : SameWork i i') : i'.badEntries files = i.badEntries files := by
  rw [Invocation.badEntries, entries, same.symtab]
  rfl

theorem SameWork.program (same : SameWork i i') (path : String) :
    i'.program files c path = i.program files c path := by
  rw [Invocation.program, same.seeded, policy, same.keepGoing]
  rfl

theorem SameWork.programs (same : SameWork i i') : i'.programs files c = i.programs files c := by
  simp only [Invocation.programs, same.inputs, same.program]

theorem SameWork.symbolMap (same : SameWork i i') : i'.symbolMap files c = i.symbolMap files c := by
  simp only [Invocation.symbolMap, same.inputs, same.program]

theorem SameWork.errors (same : SameWork i i') : i'.errors files c = i.errors files c := by
  rw [Invocation.errors, same.badEntries, same.programs]
  rfl

theorem SameWork.writable (same : SameWork i i') :
    i'.Writable formats files c ↔ i.Writable formats files c := by
  rw [Writable, same.map, same.symbolMap]
  rfl

theorem SameWork.mapFile? (same : SameWork i i') :
    i'.mapFile? formats files c = i.mapFile? formats files c := by
  rw [Invocation.mapFile?, same.map, same.symbolMap]
  rfl

theorem SameWork.runs (same : SameWork i i') (looksUp : i.LooksUp files → i'.LooksUp files)
    (runs : i.Runs files c) : i'.Runs files c := by
  have catalog : i'.catalog? files = some c := by
    rw [catalog?, same.opcodes]
    exact runs.catalog
  refine ⟨fun path member => ?_, catalog⟩
  simp only [readPaths, same.opcodes, same.symtab, same.inputs, List.mem_append,
    Option.mem_toList] at member
  rcases member with work | labels
  · exact runs.readable path (by simp only [readPaths, List.mem_append, Option.mem_toList, work, true_or])
  · exact looksUp (Session.readable_lookup runs) path labels

end Invocation

/-! ### Totals -/

namespace Session

theorem text_append (first second : List Styled) : text (first ++ second) = text first ++ text second := by
  unfold text
  rw [List.map_append, String.join_append]

theorem text_total (n : Nat) :
    text [total n] = "\x1b[31m\x1b[1m" ++ (n.repr ++ " error(s)\x1b[39m\x1b[22m\n") := by
  have switches : Text.Span.render ⟨[.red, .bold], n.repr ++ " error(s)"⟩ =
      "\x1b[31m\x1b[1m" ++ (n.repr ++ " error(s)") ++ "\x1b[39m\x1b[22m" := rfl
  simp [total, text, Text.Styled.render, switches, String.append_assoc]

/-- A total can be told from any other. -/
theorem text_total_inj {m n : Nat} (same : text [total m] = text [total n]) : m = n := by
  rw [text_total, text_total, String.append_right_inj, String.append_left_inj] at same
  have digits : Nat.toDigits 10 m = Nat.toDigits 10 n := by
    rw [← Nat.toList_repr, same, Nat.toList_repr]
  rw [← Nat.ofDigitChars_ten_toDigits (n := m), digits, Nat.ofDigitChars_ten_toDigits]

theorem text_total_ne_empty (n : Nat) : text [total n] ≠ "" := by
  rw [text_total]
  simp

/-- All that a run says before its total. -/
def said (formats : Formats) (i : Invocation) (files : Files) : List Styled :=
  match EStateM.run (phases formats i files) [[.of "SIC/XE Assembler (pass 1)"]] with
  | .ok _ lines => lines
  | .error failure lines =>
    let message : Listing.Diagnostic := ⟨.error, [.of failure.message], none⟩
    lines ++ message.lines

end Session

/-- The output is what a run says, and then this total, which is its only one. Of no errors nothing is
said. -/
structure Counts (formats : Formats) (i : Invocation) (files : Files) (output : String)
    (errors : Nat) : Prop where
  ends : errors ≠ 0 →
    output = Session.text (Session.said formats i files ++ [Session.total errors])
  silent : errors = 0 → output = Session.text (Session.said formats i files)
  single : ∀ line ∈ Session.said formats i files, ¬ Session.IsTotal line

variable {formats : Formats} {i : Invocation} {files : Files}

/-- What is said after all else is a total exactly if there were errors. -/
theorem Counts.output_eq {output : String} {n : Nat} (counted : Counts formats i files output n) :
    output = Session.text (Session.said formats i files) ++
      if n = 0 then "" else Session.text [Session.total n] := by
  split
  · rename_i no_errors
    rw [counted.silent no_errors, String.append_empty]
  · rename_i some_errors
    rw [counted.ends some_errors, Session.text_append]

theorem Counts.unique {output : String} {m n : Nat} (first : Counts formats i files output m)
    (second : Counts formats i files output n) : m = n := by
  have same := first.output_eq.symm.trans second.output_eq
  rw [String.append_right_inj] at same
  split at same <;> split at same
  · omega
  · exact absurd same.symm (Session.text_total_ne_empty n)
  · exact absurd same (Session.text_total_ne_empty m)
  · exact Session.text_total_inj same

/-! ### Runs -/

theorem run_of_yields {c : Catalog} (runs : i.Runs files c) (writable : i.Writable formats files c) :
    (Session.run formats i files).exitCode = (if i.errors files c = 0 then 0 else 1) ∧
      Counts formats i files (Session.run formats i files).output (i.errors files c) ∧
      (Session.run formats i files).written = i.mapFile? formats files c := by
  obtain ⟨lines, ran, plain⟩ :=
    Session.yields_phases runs writable [[.of "SIC/XE Assembler (pass 1)"]]
  have title : ¬ Session.IsTotal [.of "SIC/XE Assembler (pass 1)"] :=
    Session.not_isTotal_of_plain _ _
  have said : Session.said formats i files = [[.of "SIC/XE Assembler (pass 1)"]] ++ lines := by
    unfold Session.said
    rw [ran]
  unfold Session.run
  rw [ran]
  dsimp only
  refine ⟨rfl, ⟨?_, ?_, ?_⟩, rfl⟩
  · intro some_errors
    rw [said, Session.closing, if_neg some_errors]
    rfl
  · intro no_errors
    rw [said, Session.closing, if_pos no_errors, List.append_nil]
  · rw [said]
    exact List.forall_mem_cons.2 ⟨title, plain⟩

theorem run_of_fails (stuck : ¬ ∃ c, i.Runs files c ∧ i.Writable formats files c) :
    (Session.run formats i files).exitCode = 1 ∧ (Session.run formats i files).written = none := by
  obtain ⟨failure, lines, ran⟩ := Session.fails_phases stuck [[.of "SIC/XE Assembler (pass 1)"]]
  unfold Session.run
  rw [ran]
  exact ⟨rfl, rfl⟩

theorem counts_of_run {c : Catalog} (runs : i.Runs files c)
    (writable : i.Writable formats files c) (n : Nat) :
    Counts formats i files (Session.run formats i files).output n ↔ n = i.errors files c := by
  have counted := (run_of_yields runs writable).2.1
  constructor
  · intro other
    exact other.unique counted
  · rintro rfl
    exact counted

/-- The catalog of a run is the one that its table describes. -/
theorem catalog_of_runs {c c' : Catalog} (runs : i.Runs files c) (runs' : i.Runs files c') : c = c' :=
  Option.some_inj.1 (runs.catalog.symm.trans runs'.catalog)

/-- What a run leaves behind, in terms of what its files are. -/
structure Invocation.Accounts (formats : Formats) (i : Invocation) (files : Files)
    (result : Result) : Prop where
  exits : result.exitCode = 0 ∨ result.exitCode = 1
  clean : result.exitCode = 0 ↔ ∃ c, i.Clean formats files c
  counts : ∀ c, i.Runs files c → i.Writable formats files c →
    ∀ n, Counts formats i files result.output n ↔ n = i.errors files c
  /-- The map file is written whatever faults there were. Its text is that of the map of the programs. -/
  written : ∀ path text, result.written = some (path, text) ↔
    i.map = some path ∧ files.canWrite path = true ∧
      ∃ c, i.Runs files c ∧ formats.emit (i.symbolMap files c) = .ok text
  /-- Whatever else is shown and looked up, the same work comes out the same, unless only one of the
  lookups can be made. -/
  shown : ∀ arguments' i', formats.parse arguments' = .ok i' → i.SameWork i' →
    (i.LooksUp files ↔ i'.LooksUp files) →
      (formats.run arguments' files).exitCode = result.exitCode ∧
      (formats.run arguments' files).written = result.written ∧
      ∀ c, i.Runs files c → i.Writable formats files c →
        ∀ n, Counts formats i' files (formats.run arguments' files).output n ↔ n = i.errors files c

theorem run_of_accepted {arguments : List String} (accepted : formats.parse arguments = .ok i) :
    formats.run arguments files = Session.run formats i files := by
  unfold Formats.run
  rw [accepted]

/-- Two runs for the same work end in the same way. -/
theorem run_of_sameWork {i' : Invocation} (same : i.SameWork i')
    (looksUp : i.LooksUp files ↔ i'.LooksUp files) :
    (Session.run formats i' files).exitCode = (Session.run formats i files).exitCode ∧
      (Session.run formats i' files).written = (Session.run formats i files).written := by
  by_cases able : ∃ c, i.Runs files c ∧ i.Writable formats files c
  · obtain ⟨c, runs, writable⟩ := able
    obtain ⟨exit, _, map⟩ := run_of_yields runs writable
    obtain ⟨exit', _, map'⟩ := run_of_yields (same.runs looksUp.1 runs) (same.writable.2 writable)
    rw [exit', exit, map', map, same.errors, same.mapFile?]
    exact ⟨rfl, rfl⟩
  · have unable : ¬ ∃ c, i'.Runs files c ∧ i'.Writable formats files c := by
      rintro ⟨c, runs, writable⟩
      exact able ⟨c, same.symm.runs looksUp.2 runs, same.writable.1 writable⟩
    rw [(run_of_fails able).1, (run_of_fails able).2, (run_of_fails unable).1, (run_of_fails unable).2]
    exact ⟨rfl, rfl⟩

theorem clean_of_run :
    (Session.run formats i files).exitCode = 0 ↔ ∃ c, i.Clean formats files c := by
  by_cases able : ∃ c, i.Runs files c ∧ i.Writable formats files c
  · obtain ⟨c, runs, writable⟩ := able
    rw [(run_of_yields runs writable).1]
    constructor
    · intro ends_well
      split at ends_well
      · rename_i no_errors
        exact ⟨c, Invocation.clean_iff.2 ⟨runs, writable, no_errors⟩⟩
      · cases ends_well
    · rintro ⟨c', clean⟩
      obtain ⟨runs', _, no_errors⟩ := Invocation.clean_iff.1 clean
      rw [catalog_of_runs runs runs', if_pos no_errors]
  · rw [(run_of_fails able).1]
    constructor
    · intro ends_well
      cases ends_well
    · rintro ⟨c, clean⟩
      exact absurd ⟨c, clean.runs, clean.writable⟩ able

theorem written_of_run (path text : String) :
    (Session.run formats i files).written = some (path, text) ↔
      i.map = some path ∧ files.canWrite path = true ∧
        ∃ c, i.Runs files c ∧ formats.emit (i.symbolMap files c) = .ok text := by
  by_cases able : ∃ c, i.Runs files c ∧ i.Writable formats files c
  · obtain ⟨c, runs, writable⟩ := able
    rw [(run_of_yields runs writable).2.2, Invocation.mapFile?_eq_some_iff]
    constructor
    · rintro ⟨named, emitted⟩
      exact ⟨named, (writable path named).1, c, runs, emitted⟩
    · rintro ⟨named, _, c', runs', emitted⟩
      rw [catalog_of_runs runs' runs] at emitted
      exact ⟨named, emitted⟩
  · rw [(run_of_fails able).2]
    constructor
    · intro wrote
      cases wrote
    · rintro ⟨named, granted, c, runs, emitted⟩
      exact absurd ⟨c, runs, Invocation.writable_of_emitted named granted emitted⟩ able

/-- Every run of a command line that is accepted gives a full account of its errors. -/
theorem run_accounts {arguments : List String} (accepted : formats.parse arguments = .ok i)
    (files : Files) : i.Accounts formats files (formats.run arguments files) := by
  rw [run_of_accepted accepted]
  exact {
    exits := by
      by_cases able : ∃ c, i.Runs files c ∧ i.Writable formats files c
      · obtain ⟨c, runs, writable⟩ := able
        rw [(run_of_yields runs writable).1]
        split
        · exact Or.inl rfl
        · exact Or.inr rfl
      · exact Or.inr (run_of_fails able).1
    clean := clean_of_run
    counts := fun _ runs writable => counts_of_run runs writable
    written := written_of_run
    shown := by
      intro arguments' i' accepted' same looksUp
      rw [run_of_accepted accepted']
      obtain ⟨exit, map⟩ := run_of_sameWork same looksUp
      refine ⟨exit, map, fun c runs writable => ?_⟩
      rw [← same.errors]
      exact counts_of_run (same.runs looksUp.1 runs) (same.writable.2 writable) }

/-- A bad entry, and a source with an undefined symbol that is named twice, are three errors. The map is
written all the same, with one entry for each path, and more output does not change it. -/
theorem run_accounts_named_twice :
    let files := (Directory.mk [("ops", "LDA 00 3".toUTF8), ("seeds", "5 K t\n\n6 K".toUTF8),
      ("a.asm", "A LDA =C'E'".toUTF8), ("b.asm", "B LDA C".toUTF8)]).view
    let i : Invocation := ⟨["b.asm", "a.asm", "b.asm"], some "ops", some "seeds", none, some "map",
      false, false, false⟩
    let arguments := ["-p", "ops", "--symtab=seeds", "-mmap", "b.asm", "a.asm", "b.asm"]
    let result := Formats.standard.run arguments files
    let map : SymbolMap := ⟨[
      ("b.asm", ⟨0, 3, [("B", ⟨0, true, false⟩), ("K", ⟨5, true, false⟩)], []⟩),
      ("a.asm", ⟨0, 3, [("A", ⟨0, true, false⟩), ("K", ⟨5, true, false⟩)],
        [⟨"=C'E'", "45", 1, 1⟩]⟩)]⟩
    result.exitCode = 1 ∧ Counts .standard i files result.output 3 ∧
      (∃ before, result.output = before ++ "\x1b[31m\x1b[1m3 error(s)\x1b[39m\x1b[22m\n") ∧
      result.written = some ("map", map.toYaml) ∧
      (Formats.standard.run ("-vd" :: arguments) files).written = result.written := by
  intro files i arguments result map
  let c : Catalog := ⟨[.machine "LDA" 0x00 .three]⟩
  let shown : Invocation := { i with dump := true, verbose := true }
  have accepted : Formats.standard.parse arguments = .ok i := rfl
  have accepted' : Formats.standard.parse ("-vd" :: arguments) = .ok shown := rfl
  have account : i.Accounts .standard files result := run_accounts accepted files
  have runs : i.Runs files c := ⟨by decide, rfl⟩
  have mapped : i.symbolMap files c = map := by decide +kernel +zetaReduce
  have emitted : Formats.standard.emit (i.symbolMap files c) = .ok map.toYaml := by rw [mapped]; rfl
  have writable : i.Writable .standard files c := Invocation.writable_of_emitted rfl rfl emitted
  have three_errors : i.errors files c = 3 := by decide +kernel +zetaReduce
  have counted : Counts .standard i files result.output 3 :=
    (account.counts c runs writable 3).2 three_errors.symm
  have ends_badly : result.exitCode = 1 := by
    rcases account.exits with ends_well | ends_badly
    · obtain ⟨c', clean⟩ := account.clean.1 ends_well
      obtain ⟨_, _, no_errors⟩ := Invocation.clean_iff.1 clean
      rw [catalog_of_runs clean.runs runs, three_errors] at no_errors
      cases no_errors
    · exact ends_badly
  have wrote : result.written = some ("map", map.toYaml) :=
    (account.written "map" map.toYaml).2 ⟨rfl, rfl, c, runs, emitted⟩
  have same : i.SameWork shown := ⟨rfl, rfl, rfl, rfl, rfl⟩
  exact ⟨ends_badly, counted, ⟨_, counted.output_eq⟩, wrote,
    (account.shown _ _ accepted' same Iff.rfl).2.1⟩

end SicXe.CommandLine
