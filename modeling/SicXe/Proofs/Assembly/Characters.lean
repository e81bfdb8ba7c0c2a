import SicXe.Proofs.Assembly.Isolation
import SicXe.Proofs.Catalog.Law
import SicXe.Proofs.Operand.Characters
import SicXe.Proofs.Source.Spacing

/-!
# Lines with a character constant

A character constant goes through the columns of its line, the modes of operands and the reader of literals
before it has a size. Whatever its characters and however its line is spaced, it comes out as their codes,
in BYTE and as a literal of an instruction (`Reachable.characters_kept`). That the line is resolved does not
depend on the tables, since a constant has its value in any of them (`step_resolves_iff`).
-/
namespace SicXe

/-! ### Operands with a value in all tables -/

theorem Source.Statement.key?_isSome_of_valid {s : Source.Statement}
    (valid : ∀ label, s.label = some label → Label.defect? label.toList = none) :
    s.label.isSome = s.key?.isSome := by
  cases labelled : s.label with
  | none => rw [Source.Statement.key?_of_none labelled]
  | some label =>
    have rules := valid label labelled
    have trimmed : Text.trim label.toList = label.toList := Text.trim_of_no_blank fun c member =>
      Label.isBlank_of_isLabelChar (((Label.defect?_eq_none_iff _).1 rules).2.2 c member)
    have normal : Label.normalize label = .ok (String.ofList (label.toList.map Char.toUpper)) :=
      Label.normalize_eq_ok_iff.2 ⟨by rw [trimmed, rules], by rw [trimmed]⟩
    rw [Source.Statement.key?_of_some labelled, normal]
    rfl

theorem Source.Spacing.Legible.labelled {catalog : Catalog} {w : Source.Spacing}
    (legible : w.Legible catalog) (i : Instruction) (operand : Option String) :
    w.label.isSome = (Source.Statement.key? ⟨w.label, i, operand⟩).isSome :=
  @Source.Statement.key?_isSome_of_valid ⟨w.label, i, operand⟩ fun label named => (legible.label label named).1

namespace Assembly

theorem declareLabel_of_valid {s : Source.Statement} (labelled : s.label.isSome = s.key?.isSome)
    (address : Int) (t : Tables) : ∃ declaration t', (declareLabel address s.label).run t =
      .ok declaration t' ∧ t'.pool = t.pool := by
  rw [declareLabel_run]
  cases named : s.label with
  | none => exact ⟨none, t, rfl, rfl⟩
  | some label =>
    rw [named, Source.Statement.key?_of_some named] at labelled
    dsimp only
    rw [SymbolTable.declare_eq]
    cases normal : Label.normalize label with
    | error e => rw [normal] at labelled; cases labelled
    | ok key => exact ⟨_, _, rfl, rfl⟩

/-- An operand has a value whatever the symbols are, and this is true of the value and of the pool that it
leaves. -/
def Evaluates (i : Instruction) (pool : LiteralPool) (expression : String)
    (property : Operand → LiteralPool → Prop) : Prop :=
  ∀ symbols, ∃ o pool', evaluate i symbols pool expression = .ok (o, pool') ∧ property o pool'

theorem Evaluates.mono {i : Instruction} {pool : LiteralPool} {expression : String}
    {property weaker : Operand → LiteralPool → Prop} (evaluates : Evaluates i pool expression property)
    (implies : ∀ o pool', property o pool' → weaker o pool') :
    Evaluates i pool expression weaker := by
  intro symbols
  obtain ⟨o, pool', value, holds⟩ := evaluates symbols
  exact ⟨o, pool', value, implies o pool' holds⟩

variable {line : Nat} {text expression : String} {s : Source.Statement} {counter next : Int}
  {t t' : Tables} {l : ResolvedLine}

theorem resolveLine_of_evaluates (labelled : s.label.isSome = s.key?.isSome)
    (column : s.operand = some expression)
    (evaluates : Evaluates s.instruction t.pool expression fun o _ =>
      following s.instruction counter (some o) = .ok next)
    (address : Word.isAddress next = true) {e : Error} :
    (resolveLine counter line text s).run t ≠ .error e t' := by
  obtain ⟨declaration, t₁, declared, pool⟩ := declareLabel_of_valid labelled counter t
  obtain ⟨o, pool', value, moved⟩ := evaluates t₁.symbols
  rw [resolveLine_run, declared, column]
  simp only [readOperand_run, pool, value, moved, toAddress, address, if_true]
  exact fun fails => nomatch fails

/-- The operand of a resolved line, if its column has a value in any case. -/
theorem Resolution.evaluated (resolution : Resolution counter line text s t l next t')
    (column : s.operand = some expression) {property : Operand → LiteralPool → Prop}
    (evaluates : Evaluates s.instruction t.pool expression property) :
    ∃ o, l.operand = some o ∧ property o t'.pool := by
  obtain ⟨o, pool', value, holds⟩ := evaluates (define t.symbols s.key? (counter, true))
  have read := resolution.operand
  rw [column] at read
  generalize l.operand = operand at read
  generalize l.deferred = deferred at read
  generalize t'.pool = pool at read
  cases read with
  | evaluated same =>
    rw [value] at same
    cases same
    exact ⟨o, rfl, holds⟩
  | deferred wants =>
    rw [value] at wants
    cases wants

namespace Assembler

variable {a after : Assembler}

theorem resolution_of_step (wf : a.WellFormed) (stated : Source.statementIn a.catalog text = some s)
    (resolves : a.step line text = (.ok (.resolved l), after)) :
    ∃ next, Resolution a.counter line text s a.tables l next after.tables := by
  have steps := steps_step wf line text
  rw [resolves] at steps
  cases steps with
  | resolved read resolution =>
    cases stated.symm.trans read
    exact ⟨_, resolution⟩

theorem step_of_no_error (wf : a.WellFormed) (stated : Source.statementIn a.catalog text = some s)
    (succeeds : ∀ e touched, (resolveLine a.counter line text s).run a.tables ≠ .error e touched) :
    ∃ l after, a.step line text = (.ok (.resolved l), after) := by
  have states : Source.read a.catalog line text = .ok (some s) := Source.read_eq_some_iff.2 stated
  have steps := steps_step wf line text
  rcases stepped : a.step line text with ⟨answer, after⟩
  rw [stepped] at steps
  cases steps with
  | unknown unread =>
    rw [states] at unread
    cases unread
  | skipped idle =>
    rw [states] at idle
    cases idle
  | resolved read resolution => exact ⟨_, _, rfl⟩
  | steppedOver read failed =>
    cases stated.symm.trans read
    exact absurd failed (succeeds _ _)
  | halted read failed =>
    cases stated.symm.trans read
    exact absurd failed (succeeds _ _)

/-- A line with such an operand is resolved if there is room for it, whatever the tables. -/
theorem step_resolves_iff (wf : a.WellFormed) (stated : Source.statementIn a.catalog text = some s)
    (labelled : s.label.isSome = s.key?.isSome) (column : s.operand = some expression)
    (evaluates : Evaluates s.instruction a.tables.pool expression fun o _ =>
      following s.instruction a.counter (some o) = .ok next) :
    (∃ l after, a.step line text = (.ok (.resolved l), after)) ↔ Word.isAddress next = true := by
  constructor
  · rintro ⟨l, after, resolves⟩
    obtain ⟨there, resolution⟩ := resolution_of_step wf stated resolves
    obtain ⟨o, operand, moved⟩ := resolution.evaluated column evaluates
    have moved_there := resolution.following
    rw [operand, moved] at moved_there
    cases moved_there
    exact resolution.isAddress
  · intro address
    exact step_of_no_error wf stated fun _ _ => resolveLine_of_evaluates labelled column evaluates address

/-! ### Characters -/

open Literal (characters codes Quotable)
open Source (Spacing)

/-- What the lines of an assembler make of a character constant with these characters and this
spacing. -/
structure Characters (a : Assembler) (line : Nat) (w : Spacing) (marker : Char) (text : List Char) :
    Prop where
  /-- BYTE takes a byte for each character, if there is room for them. -/
  room : (∃ l after, a.step line (w.line "BYTE".toList (characters false marker text)) =
    (.ok (.resolved l), after)) ↔ a.counter + text.length ≤ Word.maxAddress
  bytes : ∀ l after, a.step line (w.line "BYTE".toList (characters false marker text)) =
    (.ok (.resolved l), after) → l.length = text.length ∧ after.tables.pool = a.tables.pool ∧
      ∃ o, l.operand = some o ∧ o.kind = .addressed (.literal .constantString) ∧ o.bytes = codes text
  /-- The instruction may be in any column that is one word and does not start a comment: letters and
  digits, with a plus sign before them or not. -/
  pooled : ∀ instruction mnemonic opcode format, Source.Bare instruction →
    instruction.head? ≠ some '.' →
    a.catalog.lookup (String.ofList instruction) = some (.machine mnemonic opcode format) →
    format = .three ∨ format = .four → a.counter + format.size ≤ Word.maxAddress →
      ∃ l after o stored, a.step line (w.line instruction (characters true marker text)) =
        (.ok (.resolved l), after) ∧ l.operand = some o ∧ o.bytes = codes text ∧
          after.tables.pool.get? (codes text) = some stored ∧ stored.address = some o.value

theorem isColumn_characters (pooled : Bool) {marker : Char} (upper : marker.toUpper = 'C')
    {text : List Char} (plain : Literal.quote ∉ text) :
    Source.IsColumn (characters pooled marker text) := by
  have visible : Text.isBlank marker = false := by
    rw [← Text.isBlank_toUpper, upper]
    decide
  have no_quote : Source.isQuote marker = false := by
    refine decide_eq_false ?_
    rintro rfl
    cases upper
  have front : Source.Bare ((if pooled then ['='] else []) ++ [marker]) := by
    intro c member
    have equals_or_marker : c = '=' ∨ c = marker := by
      cases pooled with
      | true => simpa using member
      | false => exact Or.inr (by simpa using member)
    rcases equals_or_marker with rfl | rfl
    · exact ⟨rfl, by decide⟩
    · exact ⟨no_quote, visible⟩
  have inner : ∀ c ∈ text, Source.isQuote c = false := fun c member =>
    decide_eq_false fun quotes => plain (quotes ▸ member)
  have column := Source.isColumn_of_quoted front inner
  rwa [List.append_assoc, List.singleton_append] at column

theorem lookup_byte (c : Catalog) :
    c.lookup (String.ofList "BYTE".toList) = some (.directive .byte) := rfl

theorem size_of_codes {o : Operand} {inner : List Char} (bytes : o.bytes = codes inner)
    (short : inner.length < 2147483648) : o.size = inner.length := by
  have fits : Word.fits inner.length = true := by
    rw [Word.fits_iff]
    omega
  rw [Operand.size, bytes, codes, List.length_map, Word.wrap_of_fits fits]

theorem isAddress_advanced (wf : a.WellFormed) (size : Nat) :
    Word.isAddress (a.counter + size) = true ↔ a.counter + size ≤ Word.maxAddress := by
  have counter := Word.isAddress_iff.1 wf.counter
  rw [Word.isAddress_iff]
  omega

section

variable {marker : Char} {inner : List Char} {w : Spacing}

/-- In BYTE, characters leave the pool alone and have a byte each. -/
theorem evaluates_byte (upper : marker.toUpper = 'C') (quotable : Quotable inner)
    (short : inner.length < 2147483648) (pool : LiteralPool) :
    Evaluates (.directive .byte) pool (String.ofList (characters false marker inner)) fun o pool' =>
      pool' = pool ∧ o.kind = .addressed (.literal .constantString) ∧ o.bytes = codes inner ∧
        ∀ counter, following (.directive .byte) counter (some o) = .ok (counter + inner.length) := by
  intro symbols
  obtain ⟨o, value, kind, bytes⟩ := Operand.resolve_characters upper quotable symbols pool
  refine ⟨o, pool, value, rfl, kind, bytes, fun counter => ?_⟩
  rw [← size_of_codes bytes short]
  rfl

/-- As a literal, characters are in the pool afterwards. -/
theorem evaluates_literal (upper : marker.toUpper = 'C') (quotable : Quotable inner)
    {mnemonic : String} {opcode : UInt8} {format : Instruction.Format}
    (extensible : format = .three ∨ format = .four) (pool : LiteralPool) :
    Evaluates (.machine mnemonic opcode format) pool (String.ofList (characters true marker inner))
      fun o pool' => o.bytes = codes inner ∧
        (∃ stored, pool'.get? (codes inner) = some stored ∧ o.value = stored.address.getD 0) ∧
        ∀ counter, following (.machine mnemonic opcode format) counter (some o) =
          .ok (counter + format.size) := by
  intro symbols
  obtain ⟨o, pool', stored, value, bytes, found, place⟩ :=
    Operand.resolve_pooled_characters upper quotable symbols pool
  refine ⟨o, pool', ?_, bytes, ⟨stored, found, place⟩, fun counter => following_of_sized rfl _ _⟩
  rcases extensible with rfl | rfl <;> exact value

/-- The statement of a line with a character constant. -/
theorem statementIn_characters {catalog : Catalog} (legible : w.Legible catalog) (pooled : Bool)
    (upper : marker.toUpper = 'C') (quotable : Quotable inner) {instruction : List Char}
    {i : Instruction} (bare : Source.Bare instruction) (no_stop : instruction.head? ≠ some '.')
    (known : catalog.lookup (String.ofList instruction) = some i) :
    Source.statementIn catalog (w.line instruction (characters pooled marker inner)) =
      some ⟨w.label, i, some (String.ofList (characters pooled marker inner))⟩ :=
  Spacing.statementIn_line legible bare no_stop known (isColumn_characters pooled upper quotable.no_quote)

theorem statementIn_byte {catalog : Catalog} (legible : w.Legible catalog)
    (upper : marker.toUpper = 'C') (quotable : Quotable inner) :
    Source.statementIn catalog (w.line "BYTE".toList (characters false marker inner)) =
      some ⟨w.label, .directive .byte, some (String.ofList (characters false marker inner))⟩ := by
  have bare : Source.Bare "BYTE".toList := by decide
  exact statementIn_characters legible false upper quotable bare (by decide) (lookup_byte catalog)

theorem byte_characters (wf : a.WellFormed) (upper : marker.toUpper = 'C') (quotable : Quotable inner)
    (short : inner.length < 2147483648) (legible : w.Legible a.catalog)
    (resolves : a.step line (w.line "BYTE".toList (characters false marker inner)) =
      (.ok (.resolved l), after)) :
    l.length = inner.length ∧ after.tables.pool = a.tables.pool ∧ ∃ o, l.operand = some o ∧
      o.kind = .addressed (.literal .constantString) ∧ o.bytes = codes inner := by
  obtain ⟨next, resolution⟩ :=
    resolution_of_step wf (statementIn_byte legible upper quotable) resolves
  obtain ⟨o, operand, pool, kind, bytes, moves⟩ :=
    resolution.evaluated rfl (evaluates_byte upper quotable short a.tables.pool)
  have moved := resolution.following
  rw [operand, moves] at moved
  cases moved
  refine ⟨?_, pool, o, operand, kind, bytes⟩
  have no_start : Instruction.directive .byte ≠ .directive .start := by decide
  rw [resolution.length, lengthOf, if_neg no_start]
  omega

theorem pooled_characters (wf : a.WellFormed) (upper : marker.toUpper = 'C')
    (quotable : Quotable inner) (legible : w.Legible a.catalog) (line : Nat)
    {instruction : List Char} {mnemonic : String} {opcode : UInt8} {format : Instruction.Format}
    (bare : Source.Bare instruction) (no_stop : instruction.head? ≠ some '.')
    (known : a.catalog.lookup (String.ofList instruction) = some (.machine mnemonic opcode format))
    (extensible : format = .three ∨ format = .four)
    (room : a.counter + format.size ≤ Word.maxAddress) :
    ∃ l after o stored, a.step line (w.line instruction (characters true marker inner)) =
      (.ok (.resolved l), after) ∧ l.operand = some o ∧ o.bytes = codes inner ∧
        after.tables.pool.get? (codes inner) = some stored ∧ stored.address = some o.value := by
  have stated := statementIn_characters legible true upper quotable bare no_stop known
  have evaluates := @evaluates_literal marker inner upper quotable mnemonic opcode format extensible
    a.tables.pool
  have address := (isAddress_advanced wf format.size).2 room
  obtain ⟨l, after, resolves⟩ : ∃ l after,
      a.step line (w.line instruction (characters true marker inner)) = (.ok (.resolved l), after) :=
    (step_resolves_iff wf stated (legible.labelled _ _) rfl
      (evaluates.mono fun _ _ known => known.2.2 a.counter)).2 address
  obtain ⟨next, resolution⟩ := resolution_of_step wf stated resolves
  obtain ⟨o, operand, bytes, ⟨stored, found, place⟩, _⟩ := resolution.evaluated rfl evaluates
  have counted : after.tables.pool.WellFormed := by
    have kept := wf.step line (w.line instruction (characters true marker inner))
    rw [resolves] at kept
    exact kept.pool
  obtain ⟨i, numbered⟩ := counted.address_of_mem (List.mem_of_find?_eq_some found)
  refine ⟨l, after, o, stored, resolves, operand, bytes, found, ?_⟩
  rw [place, numbered, Option.getD_some]

end

/-- In every assembler that steps lead to, character constants come out as the codes of their
characters. -/
theorem Reachable.characters_kept {catalog : Catalog} {seeded : SymbolTable} {policy : Policy}
    (built : seeded.Built) (reached : Reachable catalog seeded policy a) {marker : Char}
    (either : marker = 'C' ∨ marker = 'c') {text : List Char} (quotable : Quotable text)
    (short : text.length < 2147483648) {w : Spacing} (legible : w.Legible a.catalog) (line : Nat) :
    a.Characters line w marker text := by
  have wf := reached.wellFormed built
  have upper : marker.toUpper = 'C' := by
    rcases either with rfl | rfl <;> decide
  have evaluates := evaluates_byte upper quotable short a.tables.pool
  exact {
    room := by
      rw [step_resolves_iff wf (statementIn_byte legible upper quotable) (legible.labelled _ _) rfl
        (evaluates.mono fun _ _ known => known.2.2.2 a.counter)]
      exact isAddress_advanced wf text.length
    bytes := fun _ _ resolves => byte_characters wf upper quotable short legible resolves
    pooled := fun _ _ _ _ bare no_stop known extensible room =>
      pooled_characters wf upper quotable legible line bare no_stop known extensible room }

/-- Blanks, a sign and the end of an index suffix are quoted, and the remark has an apostrophe. -/
theorem characters_kept_remarked :
    let catalog : Catalog := ⟨[.machine "LDA" 0x00 .three]⟩
    let a := ((new catalog .empty .recover).step 1 "P START 4096").2
    ∃ l after o stored, a.step 2 "\tS  +LDA =c'A +,X' it's" = (.ok (.resolved l), after) ∧
      l.operand = some o ∧ o.bytes = [0x41, 0x20, 0x2B, 0x2C, 0x58] ∧
      after.tables.pool.get? [0x41, 0x20, 0x2B, 0x2C, 0x58] = some stored ∧
      stored.address = some o.value := by
  intro catalog a
  let w : Spacing := ⟨['\t'], some "S", [' ', ' '], [' '], " it's".toList⟩
  have reached : Reachable catalog .empty .recover a := .step .new 1 "P START 4096"
  have quotable : Quotable "A +,X".toList := by decide
  have legible : w.Legible a.catalog := {
    indent := List.all_eq_true.1 rfl
    label := by rintro _ ⟨⟩; exact ⟨by decide, rfl⟩
    afterLabel := by decide
    afterInstruction := by decide
    remark := by rintro _ ⟨⟩; decide }
  have characters := reached.characters_kept .empty (Or.inr rfl) quotable (by decide) legible 2
  exact characters.pooled "+LDA".toList "LDA" 0x00 .four (by decide) (by decide) rfl
    (Or.inr rfl) (by decide)

end Assembler

end Assembly

end SicXe
