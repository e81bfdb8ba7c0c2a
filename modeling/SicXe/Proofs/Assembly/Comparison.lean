import Mathlib.Data.List.Forall2
import Mathlib.Data.Option.Basic
import SicXe.Proofs.Assembly.Sequence
import SicXe.Proofs.View

/-!
# Runs that look the same

A line does to an assembler what its statement says. If two lines have statements that a view cannot tell
apart, and two assemblers stand at the same point, then both lines do the same, and the outcomes look the
same (`step_same`). Operands that wait are the reason why looks are not enough: of two of them it has to
be known that they will look the same in all tables (`SameWaiting`). Then finishing keeps the likeness
(`settled_same`, `sameIn_finish`).
-/
namespace SicXe

open Assembly

namespace View

variable (v : View)

/-! ### Statements that look the same -/

/-- Two columns that look the same and so do their values as operands of an instruction. -/
structure SameColumn (i : Instruction) (column column' : String) : Prop where
  looks : v.column column = v.column column'
  value : ∀ symbols pool,
    v.value (evaluate i symbols pool column) = v.value (evaluate i symbols pool column')

/-- The same of two operands that wait for the last tables. -/
structure SameWaiting (column column' : String) : Prop where
  looks : v.column column = v.column column'
  value : ∀ symbols pool,
    v.value (Operand.resolve symbols pool column) = v.value (Operand.resolve symbols pool column')

/-- The same instruction, the same label in normal form, and operands of the same value. -/
structure SameStatement (s s' : Source.Statement) : Prop where
  instruction : s'.instruction = s.instruction
  label : s.label.map v.normalized = s'.label.map v.normalized
  operand : Option.Rel (v.SameColumn s.instruction) s.operand s'.operand

/-- Two lines that are read alike. -/
inductive SameReading : Except Error (Option Source.Statement) →
    Except Error (Option Source.Statement) → Prop where
  | idle : SameReading (.ok none) (.ok none)
  | stated {s s' : Source.Statement} (same : v.SameStatement s s') :
      SameReading (.ok (some s)) (.ok (some s'))
  | unknown {e e' : Error} (same : v.error e = v.error e') : SameReading (.error e) (.error e')

/-! ### Outcomes that look the same -/

structure SameLine (l l' : ResolvedLine) : Prop where
  line : v.line l = v.line l'
  deferred : Option.Rel v.SameWaiting l.deferred l'.deferred

inductive SameOutcome : Outcome → Outcome → Prop where
  | skipped : SameOutcome .skipped .skipped
  | resolved {l l' : ResolvedLine} (same : v.SameLine l l') :
      SameOutcome (.resolved l) (.resolved l')
  | faulty {f f' : Fault} (same : v.fault f = v.fault f') : SameOutcome (.faulty f) (.faulty f')

/-- Two attempts of which both succeed, with results of a kind and the same tables, or both fail. -/
inductive SameAttempt {α : Type} (R : α → α → Prop) :
    EStateM.Result Error Tables α → EStateM.Result Error Tables α → Prop where
  | ok {x y : α} {t : Tables} (same : R x y) : SameAttempt R (.ok x t) (.ok y t)
  | error {e e' : Error} {t t' : Tables} (same : v.error e = v.error e') :
      SameAttempt R (.error e t) (.error e' t')

variable {v}

theorem value_ok {result : Except Error (Operand × LiteralPool)} {o : Operand} {pool : LiteralPool}
    (h : v.value result = .ok (o, pool)) : ∃ seen, result = .ok (seen, pool) ∧ v.operand seen = o := by
  cases result with
  | error e => cases h
  | ok x =>
    cases h
    exact ⟨x.1, rfl, rfl⟩

theorem value_error {result : Except Error (Operand × LiteralPool)} {e : Error}
    (h : v.value result = .error e) : ∃ seen, result = .error seen ∧ v.error seen = e := by
  cases result with
  | ok x => cases h
  | error seen =>
    cases h
    exact ⟨seen, rfl, rfl⟩

/-- Results that look the same: two values in one pool, or two errors. -/
theorem value_cases {result result' : Except Error (Operand × LiteralPool)}
    (h : v.value result = v.value result') :
    (∃ o o' pool, result = .ok (o, pool) ∧ result' = .ok (o', pool) ∧ v.operand o = v.operand o') ∨
      ∃ e e', result = .error e ∧ result' = .error e' ∧ v.error e = v.error e' := by
  cases result with
  | ok x =>
    obtain ⟨o', same_result, same⟩ := value_ok h.symm
    exact Or.inl ⟨x.1, o', x.2, rfl, same_result, same.symm⟩
  | error e =>
    obtain ⟨e', same_result, same⟩ := value_error h.symm
    exact Or.inr ⟨e, e', rfl, same_result, same.symm⟩

theorem isUndefinedSymbol_error (e : Error) :
    (v.error e).isUndefinedSymbol = e.isUndefinedSymbol := by
  cases e <;> rfl

theorem SameStatement.refl (v : View) (s : Source.Statement) : v.SameStatement s s where
  instruction := rfl
  label := rfl
  operand := by
    cases s.operand with
    | none => exact .none
    | some column => exact .some ⟨rfl, fun _ _ => rfl⟩

theorem SameReading.refl (v : View) (reading : Except Error (Option Source.Statement)) :
    v.SameReading reading reading := by
  match reading with
  | .error e => exact .unknown rfl
  | .ok none => exact .idle
  | .ok (some s) => exact .stated (.refl v s)

/-! ### One attempt -/

theorem declareLabel_same {label label' : Option String}
    (same : label.map v.normalized = label'.map v.normalized) (address : Int) (t : Tables) :
    v.SameAttempt Eq ((declareLabel address label).run t) ((declareLabel address label').run t) := by
  rw [declareLabel_run, declareLabel_run]
  cases label with
  | none =>
    cases label' with
    | none => exact .ok rfl
    | some label' => cases same
  | some label =>
    cases label' with
    | none => cases same
    | some label' =>
      simp only [Option.map_some, Option.some.injEq, normalized] at same
      dsimp only
      rw [SymbolTable.declare_eq, SymbolTable.declare_eq]
      cases normal : Label.normalize label with
      | ok key =>
        cases normal' : Label.normalize label' with
        | ok key' =>
          simp only [normal, normal', Except.mapError, Except.ok.injEq] at same
          rw [same]
          exact .ok rfl
        | error e' => simp [normal, normal', Except.mapError] at same
      | error e =>
        cases normal' : Label.normalize label' with
        | ok key' => simp [normal, normal', Except.mapError] at same
        | error e' =>
          simp only [normal, normal', Except.mapError, Except.error.injEq] at same
          exact .error (by rw [error, error, same])

/-- Two operand columns as they are read: values that look the same, or texts that wait. -/
structure SameRead (operand operand' : Option Operand × Option String) : Prop where
  looks : operand.1.map v.operand = operand'.1.map v.operand
  deferred : Option.Rel v.SameWaiting operand.2 operand'.2

theorem readOperand_same {i : Instruction} {column column' : Option String}
    (same : Option.Rel (v.SameColumn i) column column') (t : Tables) :
    v.SameAttempt (SameRead (v := v)) ((readOperand i column).run t)
      ((readOperand i column').run t) := by
  rw [readOperand_run, readOperand_run]
  cases same with
  | none => exact .ok ⟨rfl, .none⟩
  | @some expression expression' same =>
    dsimp only
    rcases value_cases (same.value t.symbols t.pool) with
      ⟨o, o', pool, valued, valued', looks⟩ | ⟨e, e', failed, failed', looks⟩
    · rw [valued, valued']
      exact .ok ⟨congrArg some looks, .none⟩
    · have kind : e.isUndefinedSymbol = e'.isUndefinedSymbol := by
        rw [← isUndefinedSymbol_error (v := v) e, looks, isUndefinedSymbol_error]
      rw [failed, failed']
      dsimp only
      rw [← kind]
      split
      · rename_i waits
        rw [Bool.and_eq_true] at waits
        obtain ⟨name, rfl⟩ := (isUndefinedSymbol_iff e).1 waits.1
        obtain ⟨name', rfl⟩ := (isUndefinedSymbol_iff e').1 (kind ▸ waits.1)
        -- An operand that wants for a symbol is no list, so it is evaluated at the end as it was here.
        obtain ⟨evaluates, _⟩ := evaluate_undefinedSymbol failed
        obtain ⟨evaluates', _⟩ := evaluate_undefinedSymbol failed'
        refine .ok ⟨rfl, .some ⟨same.looks, fun symbols pool => ?_⟩⟩
        rw [← evaluates, ← evaluates', same.value]
      · exact .error looks

/-- The location counter does not depend on the text of an operand. -/
theorem following_operand (i : Instruction) (counter : Int) (operand : Option Operand) :
    following i counter (operand.map v.operand) = following i counter operand := by
  cases operand with
  | none => rfl
  | some o =>
    cases i with
    | machine mnemonic opcode format => rfl
    | directive d => cases d <;> rfl

/-- Nor does what EQU does. -/
theorem equate_operand (i : Instruction) (declaration : Option Declaration)
    (operand : Option Operand) (symbols : SymbolTable) :
    equate i declaration (operand.map v.operand) symbols = equate i declaration operand symbols := by
  cases operand with
  | none => rfl
  | some o =>
    cases i with
    | machine mnemonic opcode format => rfl
    | directive d =>
      cases d with
      | equ =>
        cases declaration with
        | none => rfl
        | some declaration => cases declaration <;> rfl
      | _ => rfl

theorem resolveLine_same {s s' : Source.Statement} (same : v.SameStatement s s') {line line' : Nat}
    {text text' : String} (numbers : v.number line = v.number line')
    (texts : v.text text = v.text text') (counter : Int) (t : Tables) :
    v.SameAttempt (fun result result' => v.SameLine result.1 result'.1 ∧ result'.2 = result.2)
      ((resolveLine counter line text s).run t) ((resolveLine counter line' text' s').run t) := by
  rw [resolveLine_run, resolveLine_run, same.instruction]
  have labels := declareLabel_same same.label counter t
  generalize (declareLabel counter s.label).run t = declared at labels
  generalize (declareLabel counter s'.label).run t = declared' at labels
  cases labels with
  | error looks => exact .error looks
  | @ok declaration _ t₁ same_declaration =>
    subst same_declaration
    have operands := readOperand_same same.operand t₁
    dsimp only
    generalize (readOperand s.instruction s.operand).run t₁ = read at operands
    generalize (readOperand s.instruction s'.operand).run t₁ = read' at operands
    cases operands with
    | error looks => exact .error looks
    | @ok operand operand' t₂ looks =>
      have moved : following s.instruction counter operand'.1 =
          following s.instruction counter operand.1 := by
        rw [← following_operand (v := v), ← looks.looks, following_operand]
      have equated (declaration : Option Declaration) :
          equate s.instruction declaration operand'.1 t₂.symbols =
            equate s.instruction declaration operand.1 t₂.symbols := by
        rw [← equate_operand (v := v), ← looks.looks, equate_operand]
      dsimp only
      rw [moved, equated]
      cases following s.instruction counter operand.1 with
      | error e => exact .error rfl
      | ok there =>
        dsimp only
        cases toAddress there with
        | error e => exact .error rfl
        | ok next =>
          refine .ok ⟨⟨?_, looks.deferred⟩, rfl⟩
          have deferred : operand.2.map v.column = operand'.2.map v.column := by
            have waiting := looks.deferred
            generalize operand.2 = column at waiting
            generalize operand'.2 = column' at waiting
            cases waiting with
            | none => rfl
            | some both => exact congrArg some both.looks
          simp only [View.line, lineOf, numbers, texts, looks.looks, deferred]

end View

namespace Assembly.Assembler

variable {v : View} {a b : Assembler}

/-! ### One step -/

/-- Two assemblers that stand at the same point, whatever outcomes they have recorded. -/
structure Level (a b : Assembler) : Prop where
  catalog : b.catalog = a.catalog
  policy : b.policy = a.policy
  tables : b.tables = a.tables
  counter : b.counter = a.counter
  start : b.start = a.start

theorem Level.recorded (level : a.Level b) (outcomes outcomes' : Array Outcome) :
    Level { a with outcomes := outcomes } { b with outcomes := outcomes' } :=
  ⟨level.catalog, level.policy, level.tables, level.counter, level.start⟩

/-- Two assemblers at the same point that have recorded outcomes which look the same, apart from those of
idle lines. -/
structure Abreast (v : View) (a b : Assembler) : Prop where
  level : a.Level b
  outcomes : List.Forall₂ v.SameOutcome (Outcome.significant a.outcomes.toList)
    (Outcome.significant b.outcomes.toList)

/-- What two lines do that look the same: both record an outcome, or both halt. -/
inductive SameStep (v : View) (a b : Assembler) :
    Except Fault Outcome × Assembler → Except Fault Outcome × Assembler → Prop where
  | ok {o o' : Outcome} {after after' : Assembler} (same : v.SameOutcome o o')
      (level : after.Level after') (recorded : after.outcomes = a.outcomes.push o)
      (recorded' : after'.outcomes = b.outcomes.push o') : SameStep v a b (.ok o, after) (.ok o', after')
  | error {f f' : Fault} (same : v.fault f = v.fault f') : SameStep v a b (.error f, a) (.error f', b)

/-- A fault that is stepped over or not, in both. -/
theorem stepOver_same (level : a.Level b) (i : Instruction) {f f' : Fault}
    (same : v.fault f = v.fault f') : SameStep v a b (a.stepOver i f) (b.stepOver i f') := by
  obtain ⟨catalog, policy, tables, counter, start, outcomes⟩ := a
  obtain ⟨_, _, _, _, _, outcomes'⟩ := b
  obtain ⟨rfl, rfl, rfl, rfl, rfl⟩ := level
  unfold stepOver
  dsimp only
  split
  · split
    · exact .ok (.faulty same) ⟨rfl, rfl, rfl, rfl, rfl⟩ rfl rfl
    · exact .error same
  · exact .error same

theorem step_same (wf : a.WellFormed) (level : a.Level b) {line line' : Nat} {text text' : String}
    (numbers : v.number line = v.number line') (texts : v.text text = v.text text')
    (reading : v.SameReading (Source.read a.catalog line text) (Source.read b.catalog line' text')) :
    SameStep v a b (a.step line text) (b.step line' text') := by
  unfold step
  generalize Source.read a.catalog line text = read at reading
  generalize Source.read b.catalog line' text' = read' at reading
  cases reading with
  | unknown same => exact .error (by simp only [View.fault, numbers, texts, same])
  | idle =>
    exact .ok .skipped (level.recorded _ _) rfl rfl
  | @stated s s' same =>
    dsimp only
    unfold stepStatement
    have attempts := View.resolveLine_same same numbers texts a.counter a.tables
    rw [level.counter, level.tables]
    cases attempt : (resolveLine a.counter line text s).run a.tables with
    | ok result tables =>
      cases attempt' : (resolveLine a.counter line' text' s').run a.tables with
      | error e touched =>
        rw [attempt, attempt'] at attempts
        cases attempts
      | ok result' tables' =>
        rw [attempt, attempt'] at attempts
        obtain ⟨l, next⟩ := result
        obtain ⟨l', next'⟩ := result'
        cases attempts with
        | ok both =>
          obtain ⟨lines, rfl⟩ := both
          refine .ok (.resolved lines) ⟨level.catalog, level.policy, rfl, rfl, ?_⟩ rfl rfl
          dsimp only
          rw [same.instruction, startAfter, startAfter, level.start]
    | error e touched =>
      cases attempt' : (resolveLine a.counter line' text' s').run a.tables with
      | ok result' tables' =>
        rw [attempt, attempt'] at attempts
        cases attempts
      | error e' touched' =>
        rw [attempt, attempt'] at attempts
        have looks : v.error e = v.error e' := by
          cases attempts with
          | error looks => exact looks
        -- The attempts may have touched different things, but both are taken back.
        have back : (Savepoint.take a.tables s.label).restore touched = a.tables :=
          restore_of_touches wf.symbols wf.pool (resolveLine_error attempt)
        have back' : (Savepoint.take a.tables s'.label).restore touched' = a.tables :=
          restore_of_touches wf.symbols wf.pool (resolveLine_error attempt')
        dsimp only
        rw [back, back', same.instruction]
        have unchanged : ({ b with tables := a.tables, counter := a.counter } : Assembler) = b := by
          rw [← level.tables, ← level.counter]
        rw [unchanged]
        exact stepOver_same level s.instruction (by simp only [View.fault, numbers, texts, looks])

theorem significant_push (outcomes : Array Outcome) (outcome : Outcome) :
    Outcome.significant (outcomes.push outcome).toList =
      Outcome.significant outcomes.toList ++ Outcome.significant [outcome] := by
  unfold Outcome.significant
  rw [Array.toList_push, List.filter_append]

theorem Abreast.push {after after' : Assembler} {o o' : Outcome} (abreast : Abreast v a b)
    (same : v.SameOutcome o o') (level : after.Level after')
    (recorded : after.outcomes = a.outcomes.push o)
    (recorded' : after'.outcomes = b.outcomes.push o') : Abreast v after after' := by
  refine ⟨level, ?_⟩
  rw [recorded, recorded', significant_push, significant_push]
  refine List.rel_append abreast.outcomes ?_
  cases same with
  | skipped => exact .nil
  | resolved lines => exact .cons (.resolved lines) .nil
  | faulty looks => exact .cons (.faulty looks) .nil

theorem significant_same {xs ys : List Outcome} (same : List.Forall₂ v.SameOutcome xs ys) :
    List.Forall₂ v.SameOutcome (Outcome.significant xs) (Outcome.significant ys) := by
  induction same with
  | nil => exact .nil
  | cons one _ ih =>
    cases one with
    | skipped => exact ih
    | resolved lines => exact .cons (.resolved lines) ih
    | faulty looks => exact .cons (.faulty looks) ih

/-! ### The end -/

theorem significant_settled (symbols : SymbolTable) (pool : LiteralPool) (outcomes : List Outcome) :
    Outcome.significant (outcomes.map (settledOutcome symbols pool)) =
      (Outcome.significant outcomes).map (settledOutcome symbols pool) := by
  unfold Outcome.significant
  rw [List.filter_map]
  congr 1
  apply List.filter_congr
  intro outcome _
  cases outcome <;> rfl

theorem resolved_significant (outcomes : List Outcome) :
    (Outcome.significant outcomes).filterMap Outcome.resolved? =
      outcomes.filterMap Outcome.resolved? := by
  unfold Outcome.significant
  rw [List.filterMap_filter]
  apply List.filterMap_congr
  intro outcome _
  cases outcome <;> rfl

theorem settleLine_same {l l' : ResolvedLine} (same : v.SameLine l l') (symbols : SymbolTable)
    (pool : LiteralPool) : v.line (settled symbols pool l) = v.line (settled symbols pool l') ∧
      (unsettled? symbols pool l).map v.fault = (unsettled? symbols pool l').map v.fault := by
  obtain ⟨looks, deferred⟩ := same
  have fields := looks
  simp only [View.line, ResolvedLine.mk.injEq] at fields
  obtain ⟨number, text, address, length, instruction, label, redeclared, operand, column⟩ := fields
  unfold settled unsettled? settleLine
  generalize waits : l.deferred = expression at deferred
  generalize waits' : l'.deferred = expression' at deferred
  cases deferred with
  | none => exact ⟨looks, rfl⟩
  | @some expression expression' both =>
    dsimp only
    rcases View.value_cases (both.value symbols pool) with
      ⟨o, o', pool', valued, valued', value⟩ | ⟨e, e', failed, failed', error⟩
    · rw [valued, valued']
      refine ⟨?_, rfl⟩
      simp only [View.line, number, text, address, length, instruction, label, redeclared,
        Option.map_some, value, Option.map_none]
    · rw [failed, failed']
      refine ⟨looks, ?_⟩
      simp only [Option.map_some, View.fault, number, text, error]

theorem settled_same {xs ys : List Outcome} (same : List.Forall₂ v.SameOutcome xs ys)
    (symbols : SymbolTable) (pool : LiteralPool) :
    (xs.map (settledOutcome symbols pool)).map v.outcome =
        (ys.map (settledOutcome symbols pool)).map v.outcome ∧
      ((xs.filterMap Outcome.resolved?).filterMap (unsettled? symbols pool)).map v.fault =
        ((ys.filterMap Outcome.resolved?).filterMap (unsettled? symbols pool)).map v.fault := by
  induction same with
  | nil => exact ⟨rfl, rfl⟩
  | @cons o o' xs ys one _ ih =>
    obtain ⟨outcomes, faults⟩ := ih
    simp only [List.map_cons, outcomes, List.cons.injEq, and_true]
    cases one with
    | skipped => exact ⟨rfl, faults⟩
    | faulty looks => exact ⟨by simp only [settledOutcome, View.outcome, looks], faults⟩
    | @resolved l l' lines =>
      obtain ⟨line, fault⟩ := settleLine_same lines symbols pool
      refine ⟨by simp only [settledOutcome, View.outcome, line], ?_⟩
      simp only [List.filterMap_cons, Outcome.resolved?]
      cases unsettled : unsettled? symbols pool l with
      | none =>
        cases unsettled' : unsettled? symbols pool l' with
        | none => exact faults
        | some f' => simp [unsettled, unsettled'] at fault
      | some f =>
        cases unsettled' : unsettled? symbols pool l' with
        | none => simp [unsettled, unsettled'] at fault
        | some f' =>
          simp only [unsettled, unsettled', Option.map_some, Option.some.injEq] at fault
          simp only [List.map_cons, fault, faults]

/-- Two assemblers that are abreast leave programs that look the same. -/
theorem sameIn_finish {catalog : Catalog} {seeded : SymbolTable} {policy : Policy}
    (built : seeded.Built) (reached : Reachable catalog seeded policy a)
    (reached' : Reachable catalog seeded policy b) (abreast : Abreast v a b)
    {halted halted' : Option Fault} (halts : halted.map v.fault = halted'.map v.fault) :
    (a.finish halted).SameIn v (b.finish halted') := by
  obtain ⟨level, same⟩ := abreast
  obtain ⟨outcomes, faults⟩ := settled_same same a.tables.symbols a.tables.pool
  rw [← significant_settled, ← significant_settled] at outcomes
  rw [resolved_significant, resolved_significant] at faults
  rw [finish_eq built reached, finish_eq built reached', level.tables, level.counter, level.start]
  exact ⟨rfl, rfl, rfl, rfl, outcomes.symm, faults.symm, halts.symm⟩

end Assembly.Assembler

end SicXe
