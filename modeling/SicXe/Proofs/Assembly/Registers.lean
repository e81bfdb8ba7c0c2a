import SicXe.Proofs.Assembly.Settle

/-!
# Lines of format 2

The operand of an instruction of format 2 is a list of registers, for which no table is looked at. So such
a line is resolved at once or is faulty, it never waits, and of all that the tables hold it touches its own
label alone (`declaresOnly_step`).
-/
namespace SicXe.Assembly

open Operand (ReadsRegisters SpellsCode resolveRegisters)

variable {i : Instruction} {symbols : SymbolTable} {pool pool' : LiteralPool}
  {column deferred : Option String} {operand : Option Operand}

/-- Any other instruction with this format is a directive, and those have none. -/
theorem evaluate_of_two (two : i.format = .two) (symbols : SymbolTable) (pool : LiteralPool)
    (expression : String) :
    evaluate i symbols pool expression = (resolveRegisters expression).map (·, pool) := by
  cases i with
  | machine mnemonic opcode format =>
    cases two
    rfl
  | directive d => cases two

/-- A list of registers has its value at once, and no literals. -/
theorem OperandRead.of_two (two : i.format = .two)
    (read : OperandRead i symbols pool column operand deferred pool') :
    deferred = none ∧ pool' = pool ∧
      ∀ expression, column = some expression →
        ∃ o, operand = some o ∧ resolveRegisters expression = .ok o := by
  cases read with
  | absent => exact ⟨rfl, rfl, nofun⟩
  | @evaluated expression o pool' value =>
    rw [evaluate_of_two two] at value
    obtain ⟨rfl, o, read, rfl⟩ := Operand.map_pool_ok value
    refine ⟨rfl, rfl, ?_⟩
    rintro _ ⟨⟩
    exact ⟨o, rfl, read⟩
  | @deferred expression name wants sized =>
    rw [evaluate_of_two two] at wants
    have never := (isList_registers expression).wants_none name
    cases read : resolveRegisters expression with
    | ok o => simp [read, Except.map] at wants
    | error e =>
      rw [read] at wants
      cases wants
      exact absurd read never

/-- A label of a line is declared where its key is defined. -/
theorem declareLabel_of_labelled {s : Source.Statement} (labelled : s.label.isSome = s.key?.isSome)
    (counter : Int) (t : Tables) :
    ∃ declaration, (declareLabel counter s.label).run t =
      .ok declaration { t with symbols := define t.symbols s.key? (counter, true) } := by
  cases written : s.label with
  | none =>
    rw [Source.Statement.key?_of_none written]
    exact ⟨none, rfl⟩
  | some label =>
    have keyed := Source.Statement.key?_of_some written
    rw [written] at labelled
    cases normal : Label.normalize label with
    | error e =>
      rw [normal] at keyed
      rw [keyed] at labelled
      cases labelled
    | ok key =>
      rw [normal] at keyed
      rw [keyed, declareLabel_run]
      dsimp only
      rw [SymbolTable.declare_eq, normal]
      exact ⟨_, rfl⟩

namespace Assembler

variable {catalog : Catalog} {seeded : SymbolTable} {policy : Policy} {a : Assembler}

/-- What a line does whose operand is a list of registers: it leaves the tables as the declaration of its
label leaves them, or it is faulty and leaves them alone. -/
inductive DeclaresOnly (a : Assembler) (s : Source.Statement) :
    Except Fault Outcome → Assembler → Prop where
  | resolved {l : ResolvedLine} {declaration : Option Declaration} {after : Assembler}
      (deferred : l.deferred = none)
      (value : ∀ expression, s.operand = some expression →
        ∃ o, l.operand = some o ∧ resolveRegisters expression = .ok o)
      (declared : (declareLabel a.counter s.label).run a.tables = .ok declaration after.tables) :
      DeclaresOnly a s (.ok (.resolved l)) after
  | faulty {fault : Fault} {after : Assembler} (kept : after.tables = a.tables) :
      DeclaresOnly a s (.ok (.faulty fault)) after
  | halted {fault : Fault} : DeclaresOnly a s (.error fault) a

theorem declaresOnly_step (wf : a.WellFormed) (number : Nat) {text : String} {s : Source.Statement}
    (read : Source.statementIn a.catalog text = some s) (two : s.instruction.format = .two) :
    DeclaresOnly a s (a.step number text).1 (a.step number text).2 := by
  have steps := steps_step wf number text
  generalize (a.step number text).1 = answer at steps
  generalize (a.step number text).2 = after at steps
  cases steps with
  | unknown unread => exact .halted
  | skipped idle =>
    have active := Source.not_isIdle_of_statementIn read
    rw [Source.read_eq_none_iff.1 idle] at active
    cases active
  | @resolved s' l next tables read' resolution =>
    cases read.symm.trans read'
    obtain ⟨now, pool, value⟩ := resolution.operand.of_two two
    obtain ⟨declaration, declared⟩ :=
      declareLabel_of_labelled resolution.labelled a.counter a.tables
    have not_equ : l.instruction ≠ .directive .equ := by
      rw [resolution.instruction]
      intro equ
      rw [equ] at two
      cases two
    have after_label : tables =
        { a.tables with symbols := define a.tables.symbols s.key? (a.counter, true) } := by
      have symbols := resolution.symbols
      rw [ResolvedLine.definition, definitionOf_of_ne_equ not_equ, resolution.address] at symbols
      obtain ⟨_, _⟩ := tables
      cases symbols
      cases pool
      rfl
    rw [← after_label] at declared
    exact .resolved now value declared
  | steppedOver read failed recover sized inside => exact .faulty rfl
  | halted read failed stuck => exact .halted

theorem Reachable.not_deferred_of_two (built : seeded.Built)
    (reached : Reachable catalog seeded policy a) :
    ∀ l ∈ a.resolved, l.instruction.format = .two → l.deferred = none := by
  refine reached.forall_resolved built fun _ _ resolution two => ?_
  rw [resolution.instruction] at two
  exact (resolution.operand.of_two two).1

theorem not_deferred_run (built : seeded.Built) (lines : List String) :
    ∀ l ∈ ((new catalog seeded policy).run lines).resolved,
      l.instruction.format = .two → l.deferred = none := by
  intro l member two
  have reached := reachable_run catalog seeded policy lines
  obtain ⟨former, there, rfl⟩ := reached.settled_of_mem built member
  rw [settled_frame] at two
  have done := reached.not_deferred_of_two built former there two
  rw [settled_of_done done]
  exact done

/-- Lists of registers, for all texts: what they are, what is wrong with those that are none, and how
two codes make a number. For lines of format 2, at any time: they neither wait nor touch a table, apart
from their label. -/
theorem registers_law (built : seeded.Built) :
    (∀ expression result, resolveRegisters expression = result ↔ ReadsRegisters expression result) ∧
    (∀ expression o, resolveRegisters expression = .ok o →
      ∃ codes, List.Forall₂ SpellsCode (Text.trimmedParts ',' expression.toList) codes ∧
        o.Packs codes) ∧
    (∀ a, Reachable catalog seeded policy a → ∀ number text s,
      Source.statementIn a.catalog text = some s → s.instruction.format = .two →
        DeclaresOnly a s (a.step number text).1 (a.step number text).2) ∧
    ∀ lines, ∀ l ∈ ((new catalog seeded policy).run lines).resolved,
      l.instruction.format = .two → l.deferred = none := by
  refine ⟨fun _ _ => Operand.resolveRegisters_eq_iff, fun _ _ => Operand.packs_of_resolveRegisters,
    ?_, not_deferred_run built⟩
  intro a reached number text s read two
  exact declaresOnly_step (reached.wellFormed built) number read two

/-- Names and numbers, with blanks and a sign; a number that is too large, and a part too many. -/
theorem registers_law_mixed :
    let catalog : Catalog := ⟨[.machine "ADDR" 144 .two]⟩
    let lines := ["X ADDR pc,+007", "ADDR 2,Sw", "ADDR A,16", "ADDR A,,Q"]
    let p := (new catalog .empty .recover).run lines
    p.resolved.map (fun l => l.operand.map Operand.value) = [some 135, some 41] ∧
    p.faults.map Fault.error =
      [.invalidRegister "16", .expressionSyntax "A,,Q" .registers] ∧
    (∀ l ∈ p.resolved, l.instruction.format = .two → l.deferred = none) ∧
    ReadsRegisters " 2 , Sw" (.ok ⟨"2 , Sw", .registers, 41, false, []⟩) := by
  obtain ⟨reads, _, _, run⟩ := @registers_law ⟨[.machine "ADDR" 144 .two]⟩ .empty .recover .empty
  refine ⟨by decide +kernel, by decide +kernel, run _, ?_⟩
  exact (reads _ _).1 (by decide +kernel)

end Assembler

end SicXe.Assembly
