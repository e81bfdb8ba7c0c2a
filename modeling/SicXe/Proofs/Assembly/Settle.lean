import SicXe.Proofs.Assembly.Step

/-!
# Operand columns while tables grow

What a resolved line records of its operand column stays true: an operand that has its value in the
tables has it in all later ones (`Column.of_later`), and one that waits is no constant, so that
evaluating it at the end takes nothing from the pool and adds nothing. Settling a program therefore
changes each line by itself, all of them against one pair of tables (`settle_eq`).
-/
namespace SicXe.Assembly

/-- A line on which EQU defines the label anew. Its operand was evaluated when the label still had the
address of the line. -/
def ResolvedLine.EquatesLabel (l : ResolvedLine) : Prop :=
  l.instruction = .directive .equ ∧ l.label.isSome = true ∧ l.redeclared = false

/-- What a resolved line records of an operand column, judged by given tables. -/
inductive Column (symbols : SymbolTable) (pool : LiteralPool) (l : ResolvedLine) :
    Option String → Prop where
  | absent (operand : l.operand = none) (deferred : l.deferred = none) : Column symbols pool l none
  | evaluated {expression : String} {o : Operand} (operand : l.operand = some o)
      (deferred : l.deferred = none)
      (value : ¬ l.EquatesLabel → evaluate l.instruction symbols pool expression = .ok (o, pool)) :
      Column symbols pool l (some expression)
  | waiting {expression : String} (operand : l.operand = none)
      (deferred : l.deferred = some expression) (sized : (fixedSize? l.instruction).isSome = true)
      (evaluates : ∀ symbols pool, evaluate l.instruction symbols pool expression =
        Operand.resolve symbols pool expression)
      (not_constant : ¬ Operand.IsConstant expression) : Column symbols pool l (some expression)

theorem Column.of_later {symbols symbols' : SymbolTable} {pool pool' : LiteralPool}
    {l : ResolvedLine} {column : Option String} (h : Column symbols pool l column)
    (keeps : symbols.Keeps symbols') (grows : pool.Grows pool') : Column symbols' pool' l column := by
  cases h with
  | absent operand deferred => exact .absent operand deferred
  | evaluated operand deferred value =>
    exact .evaluated operand deferred fun other =>
      evaluate_of_keeps keeps (value other) grows.isPrefix
  | waiting operand deferred sized evaluates not_constant =>
    exact .waiting operand deferred sized evaluates not_constant

/-- Unless EQU defines the label anew, the tables after a line have the definition under which its
operand was evaluated. -/
theorem Resolution.symbols_of_not_equates {counter : Int} {line : Nat} {text : String}
    {s : Source.Statement} {t t' : Tables} {l : ResolvedLine} {next : Int}
    (h : Resolution counter line text s t l next t') (other : ¬ l.EquatesLabel) :
    t'.symbols = define t.symbols s.key? (counter, true) := by
  rw [h.symbols]
  cases keyed : s.key? with
  | none => rfl
  | some key =>
    -- A known label is only marked, so only for a new one does its definition matter.
    cases known : t.symbols.get? key with
    | some symbol => simp only [define, SymbolTable.insert_known known]
    | none =>
      have labelled : l.label.isSome = true := by
        rw [h.label, h.symbols, keyed, Option.bind_some, define, SymbolTable.insert_new known,
          SymbolTable.get?_set_self]
        rfl
      have new : l.redeclared = false := by
        rw [h.redeclared, keyed, Option.bind_some, known]
        rfl
      have not_equ : l.instruction ≠ .directive .equ := fun equ => other ⟨equ, labelled, new⟩
      rw [ResolvedLine.definition, definitionOf_of_ne_equ not_equ, h.address]

theorem Resolution.column {counter : Int} {line : Nat} {text : String} {s : Source.Statement}
    {t t' : Tables} {l : ResolvedLine} {next : Int}
    (h : Resolution counter line text s t l next t') : Column t'.symbols t'.pool l s.operand := by
  have read := h.operand
  have stands := h.symbols_of_not_equates
  rw [← h.instruction] at read
  generalize s.operand = column at read ⊢
  generalize operand : l.operand = value at read
  generalize deferred : l.deferred = text at read
  generalize t'.pool = pool at read ⊢
  cases read with
  | absent => exact .absent operand deferred
  | evaluated value =>
    refine .evaluated operand deferred fun other => ?_
    rw [stands other]
    exact evaluate_of_keeps (SymbolTable.Keeps.refl _) value (List.prefix_refl _)
  | deferred wants sized =>
    obtain ⟨evaluates, other⟩ := evaluate_undefinedSymbol wants
    exact .waiting operand deferred sized evaluates other

/-- The statement and the operand column of a resolved line. -/
def Recorded (catalog : Catalog) (symbols : SymbolTable) (pool : LiteralPool) (l : ResolvedLine) :
    Prop :=
  ∃ s, Source.statementIn catalog l.text = some s ∧ l.instruction = s.instruction ∧
    Column symbols pool l s.operand

namespace Assembler

variable {catalog : Catalog} {seeded : SymbolTable} {policy : Policy} {a : Assembler}

theorem Reachable.recorded (built : seeded.Built) (reached : Reachable catalog seeded policy a) :
    ∀ l ∈ a.resolved, Recorded a.catalog a.tables.symbols a.tables.pool l := by
  refine reached.invariant (motive := fun a => ∀ l ∈ a.resolved,
    Recorded a.catalog a.tables.symbols a.tables.pool l) built (by simp [Assembler.new, resolved]) ?_
  intro a line text answer after _ steps held l member
  have later (former : l ∈ a.resolved) :
      Recorded a.catalog after.tables.symbols after.tables.pool l := by
    obtain ⟨s, read, same, column⟩ := held l former
    exact ⟨s, read, same, column.of_later steps.keeps steps.grows⟩
  rcases steps.resolved_or_kept with ⟨s, new, next, read, resolution, same, extended⟩ |
    ⟨same, _, kept⟩
  · rw [extended, List.mem_append, List.mem_singleton] at member
    rw [same]
    rcases member with former | rfl
    · exact later former
    · exact ⟨s, resolution.text ▸ read, resolution.instruction, resolution.column⟩
  · rw [kept] at member
    rw [same]
    exact later member

theorem Reachable.columns (built : seeded.Built) (reached : Reachable catalog seeded policy a) :
    ∀ l ∈ a.resolved, ∃ column, Column a.tables.symbols a.tables.pool l column := by
  intro l member
  obtain ⟨s, _, _, column⟩ := reached.recorded built l member
  exact ⟨s.operand, column⟩

/-! ### Settling -/

/-- A line after its operand, if it waits, has been evaluated. -/
def settled (symbols : SymbolTable) (pool : LiteralPool) (l : ResolvedLine) : ResolvedLine :=
  (settleLine symbols pool l).1

/-- The fault of a line whose operand still cannot be evaluated. -/
def unsettled? (symbols : SymbolTable) (pool : LiteralPool) (l : ResolvedLine) : Option Fault :=
  (settleLine symbols pool l).2.1

/-- Only the operand of a line changes. -/
theorem settled_frame (symbols : SymbolTable) (pool : LiteralPool) (l : ResolvedLine) :
    settled symbols pool l =
      { l with
        operand := (settled symbols pool l).operand
        deferred := (settled symbols pool l).deferred } := by
  unfold settled settleLine
  split
  · rfl
  · split <;> rfl

/-- A resolved line is changed, any other outcome stays. -/
def settledOutcome (symbols : SymbolTable) (pool : LiteralPool) : Outcome → Outcome
  | .resolved l => .resolved (settled symbols pool l)
  | outcome => outcome

variable {symbols : SymbolTable} {pool : LiteralPool}

theorem settledOutcome_eq_resolved {outcome : Outcome} {l : ResolvedLine}
    (h : settledOutcome symbols pool outcome = .resolved l) :
    ∃ former, outcome = .resolved former ∧ settled symbols pool former = l := by
  cases outcome with
  | resolved former =>
    cases h
    exact ⟨former, rfl, rfl⟩
  | skipped => cases h
  | faulty fault => cases h

/-- Settling a line takes nothing from the pool and adds nothing. -/
theorem settleLine_of_column {l : ResolvedLine} {column : Option String}
    (h : Column symbols pool l column) :
    settleLine symbols pool l = (settled symbols pool l, unsettled? symbols pool l, pool) := by
  unfold settled unsettled?
  have same_pool : (settleLine symbols pool l).2.2 = pool := by
    unfold settleLine
    cases h with
    | absent operand deferred => rw [deferred]
    | evaluated operand deferred value => rw [deferred]
    | @waiting expression operand deferred sized evaluates not_constant =>
      rw [deferred]
      dsimp only
      split
      · rename_i resolved
        exact Operand.pool_of_not_constant not_constant resolved
      · rfl
  rw [Prod.ext_iff, Prod.ext_iff]
  exact ⟨rfl, rfl, same_pool⟩

theorem settled_of_done {l : ResolvedLine} (deferred : l.deferred = none) :
    settled symbols pool l = l := by
  unfold settled settleLine
  rw [deferred]

theorem settled_of_value {l : ResolvedLine} {expression : String} {o : Operand}
    {pool' : LiteralPool} (deferred : l.deferred = some expression)
    (value : Operand.resolve symbols pool expression = .ok (o, pool')) :
    settled symbols pool l = { l with operand := some o, deferred := none } := by
  unfold settled settleLine
  simp only [deferred, value]

theorem settled_of_fails {l : ResolvedLine} {expression : String} {e : Error}
    (deferred : l.deferred = some expression)
    (fails : Operand.resolve symbols pool expression = .error e) : settled symbols pool l = l := by
  unfold settled settleLine
  simp only [deferred, fails]

theorem unsettled?_eq_some {l : ResolvedLine} {fault : Fault}
    (h : unsettled? symbols pool l = some fault) :
    ∃ column e, l.deferred = some column ∧ Operand.resolve symbols pool column = .error e ∧
      fault = ⟨l.line, l.text, e⟩ := by
  unfold unsettled? settleLine at h
  split at h
  · cases h
  · rename_i column deferred
    split at h
    · cases h
    · rename_i e fails
      cases h
      exact ⟨column, e, deferred, fails, rfl⟩

/-- A line whose size depends on its operand does not wait. -/
theorem settled_of_unsized {l : ResolvedLine} {column : Option String}
    (h : Column symbols pool l column) (unsized : fixedSize? l.instruction = none) :
    settled symbols pool l = l := by
  cases h with
  | absent operand deferred => exact settled_of_done deferred
  | evaluated operand deferred value => exact settled_of_done deferred
  | waiting operand deferred sized evaluates not_constant =>
    rw [unsized] at sized
    cases sized

theorem settle_eq {outcomes : List Outcome}
    (columns : ∀ l, .resolved l ∈ outcomes → ∃ column, Column symbols pool l column) :
    settle symbols pool outcomes = (outcomes.map (settledOutcome symbols pool),
      (outcomes.filterMap Outcome.resolved?).filterMap (unsettled? symbols pool), pool) := by
  induction outcomes with
  | nil => rfl
  | cons outcome rest ih =>
    have later := ih fun l member => columns l (List.mem_cons_of_mem _ member)
    cases outcome with
    | resolved l =>
      obtain ⟨column, h⟩ := columns l (List.mem_cons_self ..)
      simp only [settle, settleLine_of_column h, later, List.map_cons, settledOutcome,
        List.filterMap_cons, Outcome.resolved?]
      cases unsettled? symbols pool l <;> rfl
    | skipped => simp only [settle, later, List.map_cons, settledOutcome, List.filterMap_cons,
        Outcome.resolved?]
    | faulty fault => simp only [settle, later, List.map_cons, settledOutcome,
        List.filterMap_cons, Outcome.resolved?]

/-- The program of an assembler: its tables, its location counter and its start as they are, its lines
settled one by one. -/
theorem finish_eq (built : seeded.Built) (reached : Reachable catalog seeded policy a)
    (halted : Option Fault) :
    a.finish halted =
      { symbols := a.tables.symbols
        pool := a.tables.pool
        outcomes := a.outcomes.toList.map (settledOutcome a.tables.symbols a.tables.pool)
        start := a.start.getD 0
        counter := a.counter
        undefined := a.resolved.filterMap (unsettled? a.tables.symbols a.tables.pool)
        halted := halted } := by
  have columns : ∀ l, .resolved l ∈ a.outcomes.toList →
      ∃ column, Column a.tables.symbols a.tables.pool l column := fun l member =>
    reached.columns built l (mem_resolved.2 member)
  simp only [finish, settle_eq columns, resolved]

/-- Settling adds no outcome and drops none. -/
theorem length_finish (built : seeded.Built) (reached : Reachable catalog seeded policy a)
    (halted : Option Fault) : (a.finish halted).outcomes.length = a.outcomes.size := by
  rw [finish_eq built reached, List.length_map, Array.length_toList]

theorem run_eq (a : Assembler) (lines : List String) :
    a.run lines = (a.stepAll 1 lines).1.finish (a.stepAll 1 lines).2 := rfl

theorem resolved_finish (built : seeded.Built) (reached : Reachable catalog seeded policy a)
    (halted : Option Fault) :
    (a.finish halted).resolved =
      a.resolved.map (settled a.tables.symbols a.tables.pool) := by
  rw [finish_eq built reached]
  unfold Program.resolved resolved
  dsimp only
  rw [List.filterMap_map, List.map_filterMap]
  congr 1
  funext outcome
  cases outcome <;> rfl

/-- The lines of a program are lines of the assembler, settled. -/
theorem Reachable.settled_of_mem (built : seeded.Built)
    (reached : Reachable catalog seeded policy a) {halted : Option Fault} {l : ResolvedLine}
    (member : l ∈ (a.finish halted).resolved) :
    ∃ former ∈ a.resolved, settled a.tables.symbols a.tables.pool former = l := by
  rw [resolved_finish built reached] at member
  exact List.mem_map.1 member

theorem isOf_settledOutcome {number : Nat} {text : String} {outcome : Outcome}
    (h : outcome.IsOf number text) : (settledOutcome symbols pool outcome).IsOf number text := by
  cases h with
  | skipped idle => exact .skipped idle
  | resolved active line same =>
    rw [settledOutcome, settled_frame]
    exact .resolved active line same
  | faulty active line same => exact .faulty active line same

/-- Each outcome of a program is at the place of its line. -/
theorem isOf_run (built : seeded.Built) (lines : List String) {i : Nat} {outcome : Outcome}
    (h : ((new catalog seeded policy).run lines).outcomes[i]? = some outcome) :
    ∃ text, lines[i]? = some text ∧ outcome.IsOf (i + 1) text := by
  have reached := reachable_run catalog seeded policy lines
  obtain ⟨later, extended, placed⟩ :=
    outcomes_stepAll (wellFormed_new catalog built policy) 1 lines
  rw [run_eq, finish_eq built reached, List.getElem?_map, extended] at h
  obtain ⟨former, found, rfl⟩ := Option.map_eq_some_iff.1 h
  obtain ⟨text, here, isOf⟩ := placed i former (by simpa [Assembler.new] using found)
  rw [Nat.add_comm] at isOf
  exact ⟨text, here, isOf_settledOutcome isOf⟩

theorem placed_run (built : seeded.Built) (lines : List String) {i : Nat} {l : ResolvedLine}
    (h : ((new catalog seeded policy).run lines).outcomes[i]? = some (.resolved l)) :
    l.line = i + 1 ∧ lines[i]? = some l.text := by
  obtain ⟨text, here, isOf⟩ := isOf_run built lines h
  cases isOf with
  | resolved active line same => exact ⟨line, same ▸ here⟩

end Assembler

end SicXe.Assembly
