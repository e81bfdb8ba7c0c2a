import Mathlib.Data.List.Forall2
import SicXe.Proofs.Assembly.Sequence

/-!
# The two policies

Up to the first fault the policy is not asked (`step_recovering_of_ok`), so an assembler that recovers
does line by line what one that aborts does. At the first fault it goes on if the line has a size of its
own and there is room for it (`Passable`), and is the same if not (`step_recovering_of_error`). A program
that went on has all that the halted one has, and more lines (`run_recover`): operands that still waited
when the other halted may have got a value.
-/
namespace SicXe.Assembly

/-- Whether a faulty line can be stepped over: its instruction has a size of its own, and with this size
the location counter stays an address. -/
def Passable (catalog : Catalog) (counter : Int) (text : String) : Prop :=
  ∃ s size, Source.statementIn catalog text = some s ∧ fixedSize? s.instruction = some size ∧
    counter + size ≤ Word.maxAddress

theorem passable_iff {catalog : Catalog} {counter : Int} {text : String} {s : Source.Statement}
    (stated : Source.statementIn catalog text = some s) : Passable catalog counter text ↔
      ∃ size, fixedSize? s.instruction = some size ∧ counter + size ≤ Word.maxAddress := by
  constructor
  · rintro ⟨s', size, stated', sized, inside⟩
    cases stated.symm.trans stated'
    exact ⟨size, sized, inside⟩
  · rintro ⟨size, sized, inside⟩
    exact ⟨s, size, stated, sized, inside⟩

/-- An outcome of one program and the one of the same line in another, `r`, where an operand may have a
value that was still missing. -/
inductive Outcome.FilledIn (r : Program) : Outcome → Outcome → Prop where
  | same (outcome : Outcome) : FilledIn r outcome outcome
  | filled {l : ResolvedLine} {column : String} {o : Operand} (missing : l.operand = none)
      (deferred : l.deferred = some column)
      (value : evaluate l.instruction r.symbols r.pool column = .ok (o, r.pool)) :
      FilledIn r (.resolved l) (.resolved { l with operand := some o, deferred := none })

/-- How a program `p` that halted at a fault stands to the program `r` of the same source for which
faulty lines were stepped over where that could be done. -/
structure Program.GoesOn (p r : Program) (catalog : Catalog) (lines : List String) (fault : Fault) :
    Prop where
  /-- The fault is that of the first line without an outcome. -/
  number : fault.line = p.outcomes.length + 1
  text : lines[p.outcomes.length]? = some fault.text
  before : List.Forall₂ (Outcome.FilledIn r) p.outcomes (r.outcomes.take p.outcomes.length)
  recorded : r.outcomes[p.outcomes.length]? = some (.faulty fault) ↔
    Passable catalog p.counter fault.text
  halted : r = p ↔ ¬ Passable catalog p.counter fault.text
  symbols : p.symbols.Keeps r.symbols
  pool : p.pool.literals <+: r.pool.literals

namespace Assembler

variable {catalog : Catalog} {seeded : SymbolTable} {policy : Policy} {a after : Assembler}
  {line : Nat} {text : String} {outcome : Outcome} {fault : Fault}

/-- The assembler under the other policy. -/
def recovering (a : Assembler) : Assembler := { a with policy := .recover }

/-- A line that does not halt an assembler that aborts. -/
theorem step_recovering_of_ok (abort : a.policy = .abort)
    (done : a.step line text = (.ok outcome, after)) :
    a.recovering.step line text = (.ok outcome, after.recovering) ∧ after.policy = .abort := by
  obtain ⟨catalog, policy, tables, counter, start, outcomes⟩ := a
  cases abort
  unfold step recovering at *
  dsimp only at done ⊢
  cases read : Source.read catalog line text with
  | error e =>
    rw [read] at done
    cases done
  | ok stated =>
    rw [read] at done
    cases stated with
    | none =>
      cases done
      exact ⟨rfl, rfl⟩
    | some s =>
      dsimp only [stepStatement] at done ⊢
      cases attempt : (resolveLine counter line text s).run tables with
      | ok result tables' =>
        rw [attempt] at done
        cases done
        exact ⟨rfl, rfl⟩
      | error e touched =>
        rw [attempt] at done
        cases done

/-- An assembler that recovers steps over a faulty line exactly if it can. -/
theorem stepOver_recover (recover : a.policy = .recover) {s : Source.Statement}
    (stated : Source.statementIn catalog text = some s) (fault : Fault) :
    (Passable catalog a.counter text ∧ ∃ next : Int, a.stepOver s.instruction fault =
      (.ok (.faulty fault), { a with
        counter := next
        outcomes := a.outcomes.push (.faulty fault) })) ∨
    (¬ Passable catalog a.counter text ∧ a.stepOver s.instruction fault = (.error fault, a)) := by
  rw [passable_iff stated]
  unfold stepOver
  rw [recover]
  cases sized : fixedSize? s.instruction with
  | none => exact Or.inr ⟨fun ⟨_, other, _⟩ => (nomatch other), rfl⟩
  | some size =>
    dsimp only
    by_cases inside : a.counter + size ≤ Word.maxAddress
    · rw [if_pos inside]
      exact Or.inl ⟨⟨size, rfl, inside⟩, _, rfl⟩
    · rw [if_neg inside]
      refine Or.inr ⟨?_, rfl⟩
      rintro ⟨_, same, inside'⟩
      cases same
      exact inside inside'

/-- A line that halts an assembler that aborts. -/
theorem step_recovering_of_error (wf : a.WellFormed) (abort : a.policy = .abort)
    (failed : a.step line text = (.error fault, after)) :
    (Passable a.catalog a.counter text ∧ ∃ next : Int, a.recovering.step line text =
      (.ok (.faulty fault), { a.recovering with
        counter := next
        outcomes := a.outcomes.push (.faulty fault) })) ∨
    (¬ Passable a.catalog a.counter text ∧
      a.recovering.step line text = (.error fault, a.recovering)) := by
  obtain ⟨symbols_wf, pool_wf, _⟩ := wf
  obtain ⟨catalog, policy, tables, counter, start, outcomes⟩ := a
  cases abort
  unfold step recovering at *
  dsimp only at failed symbols_wf pool_wf ⊢
  cases read : Source.read catalog line text with
  | error e =>
    rw [read] at failed
    cases failed
    refine Or.inr ⟨?_, rfl⟩
    rintro ⟨s, _, stated, _⟩
    rw [Source.read_eq_some_iff.2 stated] at read
    cases read
  | ok stated =>
    rw [read] at failed
    cases stated with
    | none => cases failed
    | some s =>
      dsimp only [stepStatement] at failed ⊢
      have states := Source.read_eq_some_iff.1 read
      cases attempt : (resolveLine counter line text s).run tables with
      | ok result tables' =>
        rw [attempt] at failed
        cases failed
      | error e touched =>
        have back : (Savepoint.take tables s.label).restore touched = tables :=
          restore_of_touches symbols_wf pool_wf (resolveLine_error attempt)
        rw [attempt] at failed
        cases failed
        dsimp only
        rw [back]
        exact stepOver_recover (a := ⟨catalog, .recover, tables, counter, start, outcomes⟩) rfl
          states _

/-- A source that does not halt an assembler that aborts. -/
theorem stepAll_recovering_of_done (abort : a.policy = .abort) {number : Nat} {lines : List String}
    {b : Assembler} (done : a.stepAll number lines = (b, none)) :
    a.recovering.stepAll number lines = (b.recovering, none) ∧ b.policy = .abort := by
  induction lines generalizing a number with
  | nil =>
    cases done
    exact ⟨rfl, abort⟩
  | cons text rest ih =>
    rcases stepped : a.step number text with ⟨answer, after⟩
    cases answer with
    | ok outcome =>
      obtain ⟨same, abort_after⟩ := step_recovering_of_ok abort stepped
      rw [stepAll_cons_ok stepped] at done
      rw [stepAll_cons_ok same]
      exact ih abort_after done
    | error fault =>
      rw [stepAll_cons_error stepped] at done
      cases done

theorem finish_recovering (a : Assembler) (halted : Option Fault) :
    a.recovering.finish halted = a.finish halted := rfl

/-- An assembler that aborts records no fault. -/
theorem Reachable.no_faulty (built : seeded.Built) (reached : Reachable catalog seeded .abort a) :
    ∀ fault, .faulty fault ∉ a.outcomes.toList := by
  refine reached.invariant (motive := fun a => ∀ fault, .faulty fault ∉ a.outcomes.toList) built
    (by simp [Assembler.new]) ?_
  intro a line text answer after earlier steps held fault
  have abort := (earlier.settings built).2
  cases steps with
  | unknown => exact held fault
  | halted => exact held fault
  | skipped => simpa using held fault
  | resolved => simpa using held fault
  | steppedOver read failed recover =>
    rw [abort] at recover
    cases recover

theorem no_faulty_finish (built : seeded.Built) (reached : Reachable catalog seeded .abort a)
    (halted : Option Fault) : ∀ fault, .faulty fault ∉ (a.finish halted).outcomes := by
  intro fault member
  rw [finish_eq built reached] at member
  obtain ⟨outcome, former, same⟩ := List.mem_map.1 member
  cases outcome with
  | faulty other => exact reached.no_faulty built other former
  | skipped => cases same
  | resolved l => cases same

/-! ### Operands that got a value -/

theorem filledIn_settled {symbols : SymbolTable} {pool : LiteralPool} {r : Program}
    (keeps : symbols.Keeps r.symbols) (grows : pool.Grows r.pool) {l : ResolvedLine}
    {column : Option String} (h : Column symbols pool l column) :
    Outcome.FilledIn r (.resolved (settled symbols pool l))
      (.resolved (settled r.symbols r.pool l)) := by
  cases h with
  | absent operand deferred =>
    rw [settled_of_done deferred, settled_of_done deferred]
    exact .same _
  | evaluated operand deferred value =>
    rw [settled_of_done deferred, settled_of_done deferred]
    exact .same _
  | @waiting column operand deferred sized evaluates not_constant =>
    cases early : Operand.resolve symbols pool column with
    | ok result =>
      obtain ⟨o, pool'⟩ := result
      have same_pool := Operand.pool_of_not_constant not_constant early
      have kept := Operand.resolve_of_keeps keeps early (same_pool ▸ grows.isPrefix)
      rw [settled_of_value deferred early, settled_of_value deferred kept]
      exact .same _
    | error e =>
      rw [settled_of_fails deferred early]
      cases late : Operand.resolve r.symbols r.pool column with
      | error e' =>
        rw [settled_of_fails deferred late]
        exact .same _
      | ok result =>
        obtain ⟨o, pool'⟩ := result
        rw [settled_of_value deferred late]
        refine .filled operand deferred ?_
        rw [evaluates, late, Operand.pool_of_not_constant not_constant late]

theorem filledIn_settledOutcomes {symbols : SymbolTable} {pool : LiteralPool} {r : Program}
    (keeps : symbols.Keeps r.symbols) (grows : pool.Grows r.pool) {outcomes : List Outcome}
    (columns : ∀ l, .resolved l ∈ outcomes → ∃ column, Column symbols pool l column) :
    List.Forall₂ (Outcome.FilledIn r) (outcomes.map (settledOutcome symbols pool))
      (outcomes.map (settledOutcome r.symbols r.pool)) := by
  induction outcomes with
  | nil => exact .nil
  | cons outcome rest ih =>
    refine .cons ?_ (ih fun l member => columns l (List.mem_cons_of_mem _ member))
    cases outcome with
    | resolved l =>
      obtain ⟨column, h⟩ := columns l (List.mem_cons_self ..)
      exact filledIn_settled keeps grows h
    | skipped => exact .same _
    | faulty fault => exact .same _

/-! ### Programs -/

/-- The outcomes of an assembler are those that another one begins with which has gone on from it, but
that more operands may have their values there. -/
theorem filledIn_finish {policy' : Policy} {b d : Assembler} (built : seeded.Built)
    (reached : Reachable catalog seeded policy b) (reached' : Reachable catalog seeded policy' d)
    {later : List Outcome} (extended : d.outcomes.toList = b.outcomes.toList ++ later)
    (keeps : b.tables.symbols.Keeps d.tables.symbols) (grows : b.tables.pool.Grows d.tables.pool)
    (halted halted' : Option Fault) :
    List.Forall₂ (Outcome.FilledIn (d.finish halted')) (b.finish halted).outcomes
      ((d.finish halted').outcomes.take b.outcomes.size) := by
  have columns : ∀ l, .resolved l ∈ b.outcomes.toList →
      ∃ column, Column b.tables.symbols b.tables.pool l column := fun l member =>
    reached.columns built l (mem_resolved.2 member)
  have cut : ((b.outcomes.toList ++ later).map
      (settledOutcome d.tables.symbols d.tables.pool)).take b.outcomes.size =
        b.outcomes.toList.map (settledOutcome d.tables.symbols d.tables.pool) := by
    rw [List.map_append, List.take_append_of_le_length (by simp), List.take_of_length_le (by simp)]
  rw [finish_eq built reached, finish_eq built reached', extended]
  dsimp only
  rw [cut]
  exact filledIn_settledOutcomes (r := ⟨_, _, _, _, _, _, _⟩) keeps grows columns

/-- A line that cannot be stepped over halts under both policies. -/
theorem goesOn_self {p : Program} {lines : List String} (number : fault.line = p.outcomes.length + 1)
    (text : lines[p.outcomes.length]? = some fault.text)
    (stuck : ¬ Passable catalog p.counter fault.text) : p.GoesOn p catalog lines fault where
  number := number
  text := text
  before := by
    rw [List.take_length]
    exact List.forall₂_same.2 fun outcome _ => .same outcome
  recorded := by
    have beyond : p.outcomes[p.outcomes.length]? = none := List.getElem?_eq_none (Nat.le_refl _)
    rw [beyond]
    constructor
    · intro recorded
      cases recorded
    · intro passable
      exact absurd passable stuck
  halted := ⟨fun _ => stuck, fun _ => rfl⟩
  symbols := SymbolTable.Keeps.refl _
  pool := List.prefix_refl _

/-- An assembler that has stepped over the fault at which another has halted, and has gone on. -/
theorem goesOn_of_passed {b d : Assembler} (built : seeded.Built)
    (reached : Reachable catalog seeded .abort b) (reached' : Reachable catalog seeded .recover d)
    {later : List Outcome}
    (extended : d.outcomes.toList = b.outcomes.toList ++ .faulty fault :: later)
    (keeps : b.tables.symbols.Keeps d.tables.symbols) (grows : b.tables.pool.Grows d.tables.pool)
    {lines : List String} (number : fault.line = b.outcomes.size + 1)
    (text : lines[b.outcomes.size]? = some fault.text)
    (passable : Passable catalog b.counter fault.text) (halted : Option Fault) :
    (b.finish (some fault)).GoesOn (d.finish halted) catalog lines fault := by
  have filled := filledIn_finish built reached reached' extended keeps grows (some fault) halted
  rw [finish_eq built reached, finish_eq built reached', extended] at filled ⊢
  have same_length : (b.outcomes.toList.map (settledOutcome b.tables.symbols b.tables.pool)).length =
      b.outcomes.size := by simp
  have recorded : ((b.outcomes.toList ++ .faulty fault :: later).map
      (settledOutcome d.tables.symbols d.tables.pool))[b.outcomes.size]? = some (.faulty fault) := by
    simp [settledOutcome]
  constructor
  · rw [same_length]
    exact number
  · rw [same_length]
    exact text
  · rw [same_length]
    exact filled
  · rw [same_length]
    exact ⟨fun _ => passable, fun _ => recorded⟩
  · refine ⟨fun same => ?_, fun stuck => absurd passable stuck⟩
    -- The halted program has no outcome for the line.
    have outcomes := congrArg (fun p : Program => p.outcomes[b.outcomes.size]?) same
    dsimp only at outcomes
    rw [recorded, List.getElem?_eq_none (by simp)] at outcomes
    cases outcomes
  · exact keeps
  · exact grows.isPrefix

/-- The program of a source that halts an assembler that aborts, and that of one that recovers. -/
theorem goesOn_of_halted {b : Assembler} (built : seeded.Built) {lines : List String}
    (halted : (new catalog seeded .abort).stepAll 1 lines = (b, some fault)) :
    (b.finish (some fault)).GoesOn ((new catalog seeded .recover).run lines) catalog lines fault := by
  have wf := wellFormed_new catalog built .abort
  have reached := reachable_run catalog seeded .abort lines
  rw [halted] at reached
  have b_wf := reached.wellFormed built
  obtain ⟨first, text, rest, rfl, done, failed⟩ := stepAll_halted wf halted
  obtain ⟨number, here⟩ := (halted_stepAll built halted).2 fault rfl
  obtain ⟨_, _, rfl⟩ := step_error b_wf failed
  obtain ⟨same, abort⟩ := stepAll_recovering_of_done rfl done
  have recovered : (new catalog seeded .recover).stepAll 1 first = (b.recovering, none) := same
  have catalog_eq := (reached.settings built).1
  rw [run_eq, stepAll_append_of_done recovered]
  rcases step_recovering_of_error b_wf abort failed with ⟨passable, next, passed⟩ | ⟨stuck, same⟩
  · rw [stepAll_cons_ok passed]
    have reached_b := reachable_stepAll (a := new catalog seeded .recover) .new 1 first
    rw [recovered] at reached_b
    have reached_c := reached_b.step (1 + first.length) fault.text
    rw [passed] at reached_c
    have c_wf := reached_c.wellFormed built
    have reached_d := reachable_stepAll reached_c (1 + first.length + 1) rest
    obtain ⟨later, extended, _⟩ := outcomes_stepAll c_wf (1 + first.length + 1) rest
    have keeps := keeps_stepAll c_wf (1 + first.length + 1) rest
    have grows := grows_stepAll c_wf (1 + first.length + 1) rest
    simp only [Array.toList_push, List.append_assoc, List.singleton_append] at extended
    exact goesOn_of_passed built reached reached_d extended keeps grows number here
      (catalog_eq ▸ passable) _
  · rw [stepAll_cons_error same, finish_recovering]
    have length := length_finish built reached (some fault)
    rw [catalog_eq] at stuck
    refine goesOn_self ?_ ?_ stuck
    · rw [length]
      exact number
    · rw [length]
      exact here

/-- A program that is assembled under one policy is the same under the other, unless there is a fault.
At the first fault one halts; the other halts there too, or has stepped over the line, exactly if that
could be done, and then has all that the halted one has. -/
theorem run_recover (built : seeded.Built) (lines : List String) :
    let p := (new catalog seeded .abort).run lines
    let r := (new catalog seeded .recover).run lines
    (∀ fault, .faulty fault ∉ p.outcomes) ∧ (p.halted = none → r = p) ∧
      ∀ fault, p.halted = some fault → p.GoesOn r catalog lines fault := by
  have reached := reachable_run catalog seeded .abort lines
  dsimp only
  rw [run_eq (new catalog seeded .abort)]
  rcases stepped : (new catalog seeded .abort).stepAll 1 lines with ⟨b, halted⟩
  rw [stepped] at reached
  have halted_eq : (b.finish halted).halted = halted := rfl
  refine ⟨no_faulty_finish built reached halted, ?_, ?_⟩
  · intro complete
    rw [halted_eq] at complete
    subst complete
    obtain ⟨same, _⟩ := stepAll_recovering_of_done rfl stepped
    have recovered : (new catalog seeded .recover).stepAll 1 lines = (b.recovering, none) := same
    rw [run_eq, recovered]
    rfl
  · intro fault at_fault
    rw [halted_eq] at at_fault
    subst at_fault
    exact goesOn_of_halted built stepped

/-- The second line halts or is stepped over; the first one waits for the third. -/
theorem run_recover_forward :
    let lines := ["A WORD B", "WORD 1+2+3", "B WORD 1"]
    let fault : Fault := ⟨2, "WORD 1+2+3", .expressionSyntax "1+2+3" .twoTerms⟩
    let p := (new .empty .empty .abort).run lines
    let r := (new .empty .empty .recover).run lines
    p.halted = some fault ∧ p.undefined = [⟨1, "A WORD B", .undefinedSymbol "B"⟩] ∧
      r.undefined = [] ∧ p.GoesOn r .empty lines fault := by
  have halted : ((new .empty .empty .abort).run ["A WORD B", "WORD 1+2+3", "B WORD 1"]).halted =
      some ⟨2, "WORD 1+2+3", .expressionSyntax "1+2+3" .twoTerms⟩ := rfl
  obtain ⟨_, _, goes_on⟩ := run_recover .empty ["A WORD B", "WORD 1+2+3", "B WORD 1"]
  exact ⟨halted, rfl, rfl, goes_on _ halted⟩

end Assembler

end SicXe.Assembly
