import SicXe.CommandLine.Session
import SicXe.Proofs.Assembly.Settle
import SicXe.Proofs.Literal.Grammar
import SicXe.Proofs.Literal.History

/-!
# What a symbol map keeps

A map has each path once, where it was first added, with what was last added under it (`paths_mapOf`,
`mem_mapOf`). An entry loses nothing of a program that was assembled: labels are the keys of their
symbols, so the table can be read back from it (`table_ofProgram`), and each literal is the constant
that it is written as and has an address, so the pool can be too (`pool_ofProgram`).
-/
namespace SicXe

open Assembly (Program Assembler Policy)
open CommandLine.Session (mapOf)

/-! ### Assembled programs -/

namespace Assembly

/-- A program that comes from assembling a source, with some symbols known before. -/
def Program.Assembled (p : Program) : Prop :=
  ∃ (catalog : Catalog) (seeded : SymbolTable) (policy : Policy) (lines : List String),
    seeded.Built ∧ p = (Assembler.new catalog seeded policy).run lines

theorem Assembler.Reachable.pool_lawful {catalog : Catalog} {seeded : SymbolTable} {policy : Policy}
    {a : Assembler} (built : seeded.Built) (reached : Reachable catalog seeded policy a) :
    a.tables.pool.Lawful :=
  reached.invariant (motive := fun a => a.tables.pool.Lawful) built LiteralPool.lawful_empty
    fun _ steps lawful => lawful.registersTo steps.registersTo

theorem Program.Assembled.tables_lawful {p : Program} (assembled : p.Assembled) :
    p.symbols.WellFormed ∧ p.pool.Lawful := by
  obtain ⟨catalog, seeded, policy, lines, built, rfl⟩ := assembled
  have reached := Assembler.reachable_run catalog seeded policy lines
  rw [Assembler.run_eq, Assembler.finish_eq built reached]
  exact ⟨(reached.wellFormed built).symbols, reached.pool_lawful built⟩

end Assembly

namespace SymbolMap

/-! ### Reading entries back -/

def SymbolEntry.symbol (label : String) (e : SymbolEntry) : Symbol :=
  ⟨label, e.value, e.relocatable, e.multiplyDefined⟩

/-- The constant that is written in an entry, at its address. -/
def LiteralEntry.literal? (e : LiteralEntry) : Option Literal :=
  (Literal.parse e.expression).toOption.map fun l => { l with address := some e.address }

def ProgramEntry.table (e : ProgramEntry) : SymbolTable :=
  ⟨e.symbols.map fun named => (named.1, named.2.symbol named.1)⟩

def ProgramEntry.pool (e : ProgramEntry) : LiteralPool :=
  .ofLiterals (e.literals.filterMap LiteralEntry.literal?)

/-- What an entry says of a literal. Its hex digits stand for its bytes. -/
structure LiteralEntry.Shows (e : LiteralEntry) (l : Literal) : Prop where
  expression : e.expression = l.expression
  hex : Literal.hexBytes? e.hex.toList = some l.bytes
  length : e.length = l.bytes.length
  address : l.address = some e.address

variable {p q : Program} {pool : LiteralPool} {l : Literal}

theorem table_ofProgram (wf : p.symbols.WellFormed) :
    (ProgramEntry.ofProgram p).table = p.symbols := by
  have entries : (ProgramEntry.ofProgram p).table.entries = p.symbols.entries := by
    rw [ProgramEntry.table, ProgramEntry.ofProgram, List.map_map, wf.entries_eq]
    rfl
  cases table : (ProgramEntry.ofProgram p).table
  rw [table] at entries
  exact congrArg SymbolTable.mk entries

/-- A literal of a pool is never without an address, so none is shown as zero in place of one. -/
theorem address_ofLiteral (lawful : pool.Lawful) (member : l ∈ pool.literals) :
    l.address = some (LiteralEntry.ofLiteral l).address := by
  obtain ⟨i, address⟩ := lawful.address_of_mem member
  rw [LiteralEntry.ofLiteral, address, Option.getD_some]

theorem literal?_ofLiteral (lawful : pool.Lawful) (member : l ∈ pool.literals) :
    (LiteralEntry.ofLiteral l).literal? = some l := by
  have written : Literal.parse (LiteralEntry.ofLiteral l).expression =
      .ok { l with address := none } := lawful.written l member
  rw [LiteralEntry.literal?, written, ← address_ofLiteral lawful member]
  rfl

theorem shows_ofLiteral (lawful : pool.Lawful) (member : l ∈ pool.literals) :
    (LiteralEntry.ofLiteral l).Shows l where
  expression := rfl
  hex := by
    have spelled := (Literal.parse_eq_ok_iff.1 (lawful.written l member)).1
    exact Literal.hexBytes?_bytesHex spelled.filled
  length := rfl
  address := address_ofLiteral lawful member

theorem pool_ofProgram (lawful : p.pool.Lawful) : (ProgramEntry.ofProgram p).pool = p.pool := by
  have literals : (ProgramEntry.ofProgram p).literals.filterMap LiteralEntry.literal? =
      p.pool.literals := by
    rw [ProgramEntry.ofProgram, List.filterMap_map]
    calc p.pool.literals.filterMap (LiteralEntry.literal? ∘ LiteralEntry.ofLiteral)
        = p.pool.literals.filterMap some :=
          List.filterMap_congr fun l member => literal?_ofLiteral lawful member
      _ = p.pool.literals := List.filterMap_some
  rw [ProgramEntry.pool, literals]
  exact lawful.eq_ofLiterals.symm

/-! ### What entries say -/

/-- What an entry says of a program. -/
structure ProgramEntry.Shows (e : ProgramEntry) (p : Program) : Prop where
  start : e.start = p.start
  counter : e.start + e.length = p.counter
  ascending : (e.symbols.map Prod.fst).Pairwise (· < ·)
  /-- An entry for each symbol of the table, and no other. -/
  symbols : ∀ s, (s.label, .ofSymbol s) ∈ e.symbols ↔ p.symbols.lookup s.label = some s
  literals : List.Forall₂ LiteralEntry.Shows e.literals p.pool.literals

theorem shows_ofProgram (wf : p.symbols.WellFormed) (lawful : p.pool.Lawful) :
    (ProgramEntry.ofProgram p).Shows p where
  start := rfl
  counter := by
    simp only [ProgramEntry.ofProgram, Program.length]
    omega
  ascending := by
    have labels : (ProgramEntry.ofProgram p).symbols.map Prod.fst = p.symbols.entries.map Prod.fst := by
      rw [ProgramEntry.ofProgram, wf.entries_eq, List.map_map, List.map_map]
      rfl
    rw [labels, List.pairwise_map]
    exact wf.ascending
  symbols s := by
    rw [wf.lookup_label_iff]
    constructor
    · intro listed
      obtain ⟨other, member, same⟩ := List.mem_map.1 listed
      -- A symbol is what its label and its entry say.
      have equal : other = s := congrArg (fun named => named.2.symbol named.1) same
      exact equal ▸ member
    · exact List.mem_map_of_mem
  literals := by
    rw [ProgramEntry.ofProgram, List.forall₂_map_left_iff, List.forall₂_same]
    exact fun l member => shows_ofLiteral lawful member

/-- Programs with the same entry have the same tables and the same place. -/
theorem eq_of_ofProgram_eq (wf : p.symbols.WellFormed) (lawful : p.pool.Lawful)
    (wf' : q.symbols.WellFormed) (lawful' : q.pool.Lawful)
    (same : ProgramEntry.ofProgram p = ProgramEntry.ofProgram q) :
    p.start = q.start ∧ p.counter = q.counter ∧ p.symbols = q.symbols ∧ p.pool = q.pool := by
  have shown := shows_ofProgram wf lawful
  have shown' := shows_ofProgram wf' lawful'
  refine ⟨?_, ?_, ?_, ?_⟩
  · rw [← shown.start, same, shown'.start]
  · rw [← shown.counter, same, shown'.counter]
  · rw [← table_ofProgram wf, same, table_ofProgram wf']
  · rw [← pool_ofProgram lawful, same, pool_ofProgram lawful']

/-! ### Adding programs -/

section Paths

variable {path other : String} {entry e : ProgramEntry} {programs : List (String × ProgramEntry)}
  {adds : List (String × Program)}

theorem paths_putIn (path : String) (entry : ProgramEntry) (programs : List (String × ProgramEntry)) :
    (putIn path entry programs).map Prod.fst =
      if path ∈ programs.map Prod.fst then programs.map Prod.fst
      else programs.map Prod.fst ++ [path] := by
  induction programs with
  | nil => rfl
  | cons known rest ih =>
    unfold putIn
    by_cases here : known.1 = path
    · simp [here]
    · simp only [if_neg here, List.map_cons, ih, List.mem_cons, Ne.symm here, false_or]
      split <;> rfl

/-- The entry of the path is replaced or new, those of all others stay. -/
theorem find?_putIn (path : String) (entry : ProgramEntry) (programs : List (String × ProgramEntry))
    (other : String) : (putIn path entry programs).find? (·.1 = other) =
      if path = other then some (path, entry) else programs.find? (·.1 = other) := by
  induction programs with
  | nil => by_cases same : path = other <;> simp [putIn, same]
  | cons known rest ih =>
    unfold putIn
    by_cases here : known.1 = path
    · by_cases same : path = other <;> simp [here, same]
    · rw [if_neg here, List.find?_cons, ih, List.find?_cons]
      by_cases same : path = other
      · simp [same ▸ here, same]
      · simp [same]

theorem mapOf_concat (adds : List (String × Program)) (path : String) (p : Program) :
    (mapOf (adds ++ [(path, p)])).programs = putIn path (.ofProgram p) (mapOf adds).programs := by
  rw [mapOf, List.foldl_append]
  rfl

/-- Each path is where it was first added. -/
theorem paths_mapOf (adds : List (String × Program)) :
    (mapOf adds).programs.map Prod.fst = (adds.map Prod.fst).eraseDups := by
  induction adds using List.reverseRecOn with
  | nil => rfl
  | append_singleton adds last ih =>
    rw [mapOf_concat, paths_putIn, ih, List.map_append, List.map_singleton, List.eraseDups,
      List.eraseDups, eraseDupsBy_concat]
    simp only [List.any_beq, List.contains_iff_mem]

theorem nodup_paths_mapOf (adds : List (String × Program)) :
    ((mapOf adds).programs.map Prod.fst).Nodup := by
  induction adds using List.reverseRecOn with
  | nil => exact List.nodup_nil
  | append_singleton adds last ih =>
    rw [mapOf_concat, paths_putIn]
    split
    · exact ih
    · rename_i new
      rw [← List.concat_eq_append]
      exact List.Nodup.concat new ih

/-- What is found under a path is what was last added there. -/
theorem find?_mapOf (adds : List (String × Program)) (path : String) :
    (mapOf adds).programs.find? (·.1 = path) =
      (adds.reverse.find? (·.1 = path)).map fun add => (add.1, .ofProgram add.2) := by
  induction adds using List.reverseRecOn with
  | nil => rfl
  | append_singleton adds last ih =>
    rw [mapOf_concat, find?_putIn, ih, List.reverse_concat, List.find?_cons]
    by_cases here : last.1 = path <;> simp [here]

theorem mem_mapOf : (path, e) ∈ (mapOf adds).programs ↔
    ∃ before p later, adds = before ++ (path, p) :: later ∧ (∀ add ∈ later, add.1 ≠ path) ∧
      e = .ofProgram p := by
  have found := find?_eq_some_iff_of_nodup (nodup_paths_mapOf adds) (b := path) (a := (path, e))
  simp only [and_true] at found
  rw [← found, find?_mapOf, Option.map_eq_some_iff]
  simp only [List.find?_eq_some_iff_append]
  constructor
  · rintro ⟨⟨_, p⟩, ⟨_, later, before, reversed, others⟩, shown⟩
    cases shown
    refine ⟨before.reverse, p, later.reverse, ?_, ?_, rfl⟩
    · rw [← List.reverse_reverse adds, reversed]
      simp
    · simpa using others
  · rintro ⟨before, p, later, rfl, others, rfl⟩
    refine ⟨(path, p), ⟨by simp, later.reverse, before.reverse, by simp, ?_⟩, rfl⟩
    simpa using others

/-- Where each path has one program, its entry is that of the program, however often it is added. -/
theorem mapOf_map (paths : List String) (program : String → Program) :
    mapOf (paths.map fun path => (path, program path)) =
      ⟨paths.eraseDups.map fun path => (path, .ofProgram (program path))⟩ := by
  generalize added : (paths.map fun path => (path, program path)) = adds
  have named : adds.map Prod.fst = paths := by
    rw [← added, List.map_map]
    exact List.map_id paths
  have shown : ∀ entry ∈ (mapOf adds).programs,
      (entry.1, ProgramEntry.ofProgram (program entry.1)) = entry := by
    rintro ⟨path, e⟩ member
    obtain ⟨before, p, later, parts, _, rfl⟩ := mem_mapOf.1 member
    have given : (path, p) ∈ paths.map fun path => (path, program path) := by
      rw [added, parts]
      simp
    obtain ⟨_, _, same⟩ := List.mem_map.1 given
    cases same
    rfl
  have entries : (mapOf adds).programs =
      paths.eraseDups.map fun path => (path, .ofProgram (program path)) := by
    calc (mapOf adds).programs
        = (mapOf adds).programs.map fun entry => (entry.1, .ofProgram (program entry.1)) := by
          rw [List.map_congr_left shown, List.map_id']
      _ = ((mapOf adds).programs.map Prod.fst).map fun path => (path, .ofProgram (program path)) := by
          rw [List.map_map]
          rfl
      _ = paths.eraseDups.map fun path => (path, .ofProgram (program path)) := by
          rw [paths_mapOf, named]
  exact congrArg SymbolMap.mk entries

end Paths

/-- What a map keeps of the programs that were added to it. -/
structure Keeps (m : SymbolMap) (adds : List (String × Program)) : Prop where
  paths : m.programs.map Prod.fst = (adds.map Prod.fst).eraseDups
  once : (m.programs.map Prod.fst).Nodup
  last : ∀ path e, (path, e) ∈ m.programs ↔
    ∃ before p later, adds = before ++ (path, p) :: later ∧ (∀ add ∈ later, add.1 ≠ path) ∧
      e = .ofProgram p
  shows : ∀ add ∈ adds, (ProgramEntry.ofProgram add.2).Shows add.2
  lossless : ∀ add ∈ adds, ∀ add' ∈ adds,
    ProgramEntry.ofProgram add.2 = ProgramEntry.ofProgram add'.2 →
      add.2.start = add'.2.start ∧ add.2.counter = add'.2.counter ∧
        add.2.symbols = add'.2.symbols ∧ add.2.pool = add'.2.pool

/-- The map of assembled programs, in whatever order and under whatever paths they are added. -/
theorem keeps_mapOf (adds : List (String × Program)) (assembled : ∀ add ∈ adds, add.2.Assembled) :
    (mapOf adds).Keeps adds where
  paths := paths_mapOf adds
  once := nodup_paths_mapOf adds
  last := fun _ _ => mem_mapOf
  shows add member := by
    obtain ⟨wf, lawful⟩ := (assembled add member).tables_lawful
    exact shows_ofProgram wf lawful
  lossless add member add' member' same := by
    obtain ⟨wf, lawful⟩ := (assembled add member).tables_lawful
    obtain ⟨wf', lawful'⟩ := (assembled add' member').tables_lawful
    exact eq_of_ofProgram_eq wf lawful wf' lawful' same

/-- A path that is added twice, and another one with a source of the same meaning. -/
theorem keeps_mapOf_replaced :
    let assembled := (Assembler.new .empty .empty .recover).run
    let adds := [("x", assembled ["C WORD 2"]), ("y", assembled ["B WORD =X'41'", "A WORD 1"]),
      ("x", assembled [". again", "b  WORD  =X'41'", "A WORD 01"])]
    let entry : ProgramEntry :=
      ⟨0, 6, [("A", ⟨3, true, false⟩), ("B", ⟨0, true, false⟩)], [⟨"=X'41'", "41", 1, 1⟩]⟩
    (mapOf adds).programs = [("x", entry), ("y", entry)] ∧ (mapOf adds).Keeps adds := by
  refine ⟨by decide +kernel, keeps_mapOf _ ?_⟩
  have run (lines : List String) :
      ((Assembler.new .empty .empty .recover).run lines).Assembled :=
    ⟨.empty, .empty, .recover, lines, .empty, rfl⟩
  simp only [List.forall_mem_cons]
  exact ⟨run _, run _, run _, by simp⟩

end SymbolMap

end SicXe
