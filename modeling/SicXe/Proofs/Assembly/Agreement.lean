import Mathlib.Data.List.Forall2
import SicXe.Proofs.Assembly.Settle

/-!
# Programs agree with their tables

Operands are evaluated at different times, against tables that grow from line to line; some wait for
the last ones. In the finished program nothing of that shows: every operand is what its column says in
the tables of the program, and the operands that are missing are those that cannot be evaluated there.
-/
namespace SicXe.Assembly

/-- How the operand column of a line stands to the tables of its program, and the fault that it makes
there. -/
inductive Program.Agrees (p : Program) (l : ResolvedLine) : Option String → Option Fault → Prop where
  | absent (operand : l.operand = none) (deferred : l.deferred = none) : p.Agrees l none none
  | evaluated {expression : String} {o : Operand} (operand : l.operand = some o)
      (deferred : l.deferred = none)
      (value : ¬ l.EquatesLabel →
        evaluate l.instruction p.symbols p.pool expression = .ok (o, p.pool)) :
      p.Agrees l (some expression) none
  | undefined {expression : String} {e : Error} (operand : l.operand = none)
      (deferred : l.deferred = some expression)
      (fails : evaluate l.instruction p.symbols p.pool expression = .error e) :
      p.Agrees l (some expression) (some ⟨l.line, l.text, e⟩)

/-- The fault of a line that still waits is that of its operand column in the tables of the program. -/
def Program.IsFaultOf (p : Program) (l : ResolvedLine) (fault : Fault) : Prop :=
  ∃ expression e, l.deferred = some expression ∧
    evaluate l.instruction p.symbols p.pool expression = .error e ∧ fault = ⟨l.line, l.text, e⟩

/-- What a program has of the assembler it was finished from, of its source and of its own tables. -/
structure Program.Agreement (p : Program) (catalog : Catalog) (lines : List String) (a : Assembler) :
    Prop where
  symbols : p.symbols = a.tables.symbols
  pool : p.pool = a.tables.pool
  counter : p.counter = a.counter
  start : p.start = a.start.getD 0
  /-- Outcomes stand in the order of the lines. -/
  placed : ∀ i l, p.outcomes[i]? = some (.resolved l) → l.line = i + 1 ∧ lines[i]? = some l.text
  columns : ∀ l ∈ p.resolved, ∃ s fault, Source.statementIn catalog l.text = some s ∧
    l.instruction = s.instruction ∧ p.Agrees l s.operand fault
  /-- One fault for each line that still waits, in their order. -/
  undefined : List.Forall₂ p.IsFaultOf (p.resolved.filter (·.deferred.isSome)) p.undefined

namespace Assembler

variable {catalog : Catalog} {seeded : SymbolTable} {policy : Policy} {a : Assembler}

/-- Settled against the tables of a program, a line agrees with them. -/
theorem agrees_of_column {p : Program} {l : ResolvedLine} {column : Option String}
    (h : Column p.symbols p.pool l column) :
    p.Agrees (settled p.symbols p.pool l) column (unsettled? p.symbols p.pool l) := by
  unfold settled unsettled? settleLine
  cases h with
  | absent operand deferred =>
    rw [deferred]
    exact .absent operand deferred
  | evaluated operand deferred value =>
    rw [deferred]
    exact .evaluated operand deferred value
  | @waiting expression operand deferred sized evaluates not_constant =>
    rw [deferred]
    dsimp only
    cases read : Operand.resolve p.symbols p.pool expression with
    | error e => exact .undefined operand deferred (by rw [evaluates, read])
    | ok result =>
      obtain ⟨o, pool⟩ := result
      have same_pool : pool = p.pool := Operand.pool_of_not_constant not_constant read
      exact .evaluated rfl rfl fun _ => by rw [evaluates, read, same_pool]

/-- The faults of settled lines, side by side with the lines that still wait. -/
theorem undefined_of_agrees {p : Program} (column : ResolvedLine → Option String)
    {f : ResolvedLine → ResolvedLine} {fault? : ResolvedLine → Option Fault}
    {ls : List ResolvedLine} (h : ∀ l ∈ ls, p.Agrees (f l) (column l) (fault? l)) :
    List.Forall₂ p.IsFaultOf ((ls.map f).filter (·.deferred.isSome)) (ls.filterMap fault?) := by
  induction ls with
  | nil => exact .nil
  | cons l rest ih =>
    have later := ih fun m member => h m (List.mem_cons_of_mem _ member)
    have here := h l (List.mem_cons_self ..)
    rw [List.map_cons]
    generalize column l = text at here
    generalize found : fault? l = fault at here
    cases here with
    | absent operand deferred =>
      rw [List.filter_cons_of_neg (by simp [deferred]), List.filterMap_cons_none found]
      exact later
    | evaluated operand deferred value =>
      rw [List.filter_cons_of_neg (by simp [deferred]), List.filterMap_cons_none found]
      exact later
    | undefined operand deferred fails =>
      rw [List.filter_cons_of_pos (by simp [deferred]), List.filterMap_cons_some found]
      exact .cons ⟨_, _, deferred, fails, rfl⟩ later

/-- The program of a source has the tables, the location counter and the start of the assembler after
the last line. In these tables every operand of it has its value, whenever it was evaluated, but for
that of EQU on a new label; and its faults are those of the operands that have none. -/
theorem run_agrees (built : seeded.Built) (lines : List String) :
    ((new catalog seeded policy).run lines).Agreement catalog lines
      ((new catalog seeded policy).stepAll 1 lines).1 := by
  have reached := reachable_run catalog seeded policy lines
  have placed : ∀ i l, ((new catalog seeded policy).run lines).outcomes[i]? = some (.resolved l) →
      l.line = i + 1 ∧ lines[i]? = some l.text := fun i l found => placed_run built lines found
  rw [run_eq] at placed ⊢
  generalize ((new catalog seeded policy).stepAll 1 lines).1 = a at reached placed ⊢
  generalize ((new catalog seeded policy).stepAll 1 lines).2 = halted at placed ⊢
  obtain ⟨rfl, _⟩ := reached.settings built
  have lines_agree : ∀ l ∈ a.resolved, ∃ s, Source.statementIn a.catalog l.text = some s ∧
      l.instruction = s.instruction ∧ (a.finish halted).Agrees
        (settled a.tables.symbols a.tables.pool l) s.operand
        (unsettled? a.tables.symbols a.tables.pool l) := by
    intro l member
    obtain ⟨s, read, same, column⟩ := reached.recorded built l member
    refine ⟨s, read, same, ?_⟩
    rw [finish_eq built reached]
    exact agrees_of_column column
  refine {
    symbols := by rw [finish_eq built reached]
    pool := by rw [finish_eq built reached]
    counter := by rw [finish_eq built reached]
    start := by rw [finish_eq built reached]
    placed := placed
    columns := ?_
    undefined := ?_ }
  · intro l member
    obtain ⟨former, recorded, rfl⟩ := reached.settled_of_mem built member
    obtain ⟨s, read, same, agrees⟩ := lines_agree former recorded
    refine ⟨s, _, ?_, ?_, agrees⟩
    · rw [settled_frame]
      exact read
    · rw [settled_frame]
      exact same
  · have undefined : (a.finish halted).undefined =
        a.resolved.filterMap (unsettled? a.tables.symbols a.tables.pool) := by
      rw [finish_eq built reached]
    rw [resolved_finish built reached, undefined]
    refine undefined_of_agrees
      (fun l => (Source.statementIn a.catalog l.text).bind Source.Statement.operand) ?_
    intro l member
    obtain ⟨s, read, _, agrees⟩ := lines_agree l member
    rw [read]
    exact agrees

/-- Of two operands that wait, one gets a value from a label further down. -/
theorem run_agrees_forward :
    let lines := ["A WORD B", "B WORD =C'XY'", "WORD C"]
    let p := (new .empty .empty .abort).run lines
    p.Agreement .empty lines ((new .empty .empty .abort).stepAll 1 lines).1 ∧
      p.undefined = [⟨3, "WORD C", .undefinedSymbol "C"⟩] := by
  constructor
  · exact run_agrees .empty ["A WORD B", "B WORD =C'XY'", "WORD C"]
  · rfl

end Assembler

end SicXe.Assembly
