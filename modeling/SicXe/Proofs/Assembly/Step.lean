import SicXe.Assembly.Assembler
import SicXe.Proofs.Assembly.Attempt
import SicXe.Proofs.Source.Statement

/-!
# One step of the assembler

`Steps` lists everything that one line can do to an assembler: nothing is recorded and nothing
changes, or one outcome is recorded and the rest is as the outcome says. `steps_step` is the place
where a step is opened; it rests on well-formed tables, because only those are put back exactly. All
that is said of runs is derived from it.
-/
namespace SicXe

namespace Assembly

theorem Outcome.mem_resolved {outcomes : List Outcome} {l : ResolvedLine} :
    l ∈ outcomes.filterMap Outcome.resolved? ↔ .resolved l ∈ outcomes := by
  rw [List.mem_filterMap]
  constructor
  · rintro ⟨outcome, member, found⟩
    cases outcome with
    | resolved l' =>
      cases found
      exact member
    | skipped => cases found
    | faulty fault => cases found
  · intro member
    exact ⟨_, member, rfl⟩

/-- What an outcome says of its line: an idle line is skipped, of any other the number and the text are
kept. -/
inductive Outcome.IsOf (number : Nat) (text : String) : Outcome → Prop where
  | skipped (idle : Source.isIdle text.toList = true) : IsOf number text .skipped
  | resolved {l : ResolvedLine} (active : Source.isIdle text.toList = false)
      (line : l.line = number) (same : l.text = text) : IsOf number text (.resolved l)
  | faulty {fault : Fault} (active : Source.isIdle text.toList = false)
      (line : fault.line = number) (same : fault.text = text) : IsOf number text (.faulty fault)

/-- A place in a list that has grown by one: the new end, or a place that was there before. -/
theorem split_concat {α : Type} {xs before later : List α} {new x : α}
    (h : xs ++ [new] = before ++ x :: later) :
    (xs = before ∧ new = x) ∨ ∃ more, xs = before ++ x :: more := by
  rcases List.eq_nil_or_concat later with rfl | ⟨more, last, rfl⟩
  · obtain ⟨same, ends⟩ := List.append_inj' h rfl
    exact Or.inl ⟨same, List.singleton_inj.1 ends⟩
  · rw [List.concat_eq_append, ← List.cons_append, ← List.append_assoc] at h
    exact Or.inr ⟨more, (List.append_inj' h rfl).1⟩

namespace Assembler

/-- What every assembler has between two lines. -/
structure WellFormed (a : Assembler) : Prop where
  symbols : a.tables.symbols.WellFormed
  pool : a.tables.pool.WellFormed
  counter : Word.isAddress a.counter = true

/-- What a line does: the answer of the step, and the assembler after it. -/
inductive Steps (a : Assembler) (line : Nat) (text : String) :
    Except Fault Outcome → Assembler → Prop where
  | unknown {e : Error} (unread : Source.read a.catalog line text = .error e) :
      Steps a line text (.error ⟨line, text, e⟩) a
  | skipped (idle : Source.read a.catalog line text = .ok none) :
      Steps a line text (.ok .skipped) { a with outcomes := a.outcomes.push .skipped }
  | resolved {s : Source.Statement} {l : ResolvedLine} {next : Int} {tables : Tables}
      (read : Source.statementIn a.catalog text = some s)
      (resolution : Resolution a.counter line text s a.tables l next tables) :
      Steps a line text (.ok (.resolved l))
        { a with
          tables := tables
          counter := next
          start := a.startAfter s.instruction next
          outcomes := a.outcomes.push (.resolved l) }
  | steppedOver {s : Source.Statement} {e : Error} {touched : Tables} {size : Nat}
      (read : Source.statementIn a.catalog text = some s)
      (failed : (resolveLine a.counter line text s).run a.tables = .error e touched)
      (recover : a.policy = .recover) (sized : fixedSize? s.instruction = some size)
      (inside : a.counter + size ≤ Word.maxAddress) :
      Steps a line text (.ok (.faulty ⟨line, text, e⟩))
        { a with
          counter := a.counter + size
          outcomes := a.outcomes.push (.faulty ⟨line, text, e⟩) }
  | halted {s : Source.Statement} {e : Error} {touched : Tables}
      (read : Source.statementIn a.catalog text = some s)
      (failed : (resolveLine a.counter line text s).run a.tables = .error e touched)
      (stuck : a.policy = .recover → ∀ size, fixedSize? s.instruction = some size →
        ¬ a.counter + size ≤ Word.maxAddress) :
      Steps a line text (.error ⟨line, text, e⟩) a

/-- A failed attempt leaves the assembler as it was, and then it is stepped over or not. -/
theorem steps_stepOver {a : Assembler} {line : Nat} {text : String} {s : Source.Statement}
    {e : Error} {touched : Tables} (read : Source.statementIn a.catalog text = some s)
    (failed : (resolveLine a.counter line text s).run a.tables = .error e touched) :
    Steps a line text (a.stepOver s.instruction ⟨line, text, e⟩).1
      (a.stepOver s.instruction ⟨line, text, e⟩).2 := by
  unfold stepOver
  split
  · rename_i size recover sized
    split
    · rename_i inside
      exact .steppedOver read failed recover sized inside
    · rename_i outside
      refine .halted read failed fun _ other same => ?_
      cases sized.symm.trans same
      exact outside
  · rename_i unmatched
    exact .halted read failed fun recover size sized => (unmatched size recover sized).elim

theorem steps_step {a : Assembler} (wf : a.WellFormed) (line : Nat) (text : String) :
    Steps a line text (a.step line text).1 (a.step line text).2 := by
  unfold step
  split
  · rename_i e unread
    exact .unknown unread
  · rename_i idle
    exact .skipped idle
  · rename_i s stated
    have read := Source.read_eq_some_iff.1 stated
    unfold stepStatement
    split
    · rename_i l next tables attempt
      exact .resolved read (resolveLine_ok wf.symbols attempt)
    · rename_i e touched failed
      have back : (Savepoint.take a.tables s.label).restore touched = a.tables :=
        restore_of_touches wf.symbols wf.pool (resolveLine_error failed)
      dsimp only
      rw [back]
      exact steps_stepOver read failed

variable {a after : Assembler} {line : Nat} {text : String} {answer : Except Fault Outcome}

theorem Steps.catalog (steps : Steps a line text answer after) : after.catalog = a.catalog := by
  cases steps <;> rfl

/-- No step takes a definition back. -/
theorem Steps.keeps (steps : Steps a line text answer after) :
    a.tables.symbols.Keeps after.tables.symbols := by
  cases steps with
  | resolved read resolution =>
    dsimp only
    rw [resolution.symbols]
    exact keeps_define _ _ _
  | _ => exact SymbolTable.Keeps.refl _

/-- A step registers a literal or leaves the pool. -/
theorem Steps.registersTo (steps : Steps a line text answer after) :
    a.tables.pool.RegistersTo after.tables.pool := by
  cases steps with
  | resolved read resolution => exact resolution.operand.registersTo
  | _ => exact Or.inl rfl

/-- No step takes a literal out of the pool or changes its place. -/
theorem Steps.grows (steps : Steps a line text answer after) :
    a.tables.pool.Grows after.tables.pool := steps.registersTo.grows

/-- A step that succeeds records its answer. -/
theorem Steps.outcomes {outcome : Outcome} (steps : Steps a line text (.ok outcome) after) :
    after.outcomes = a.outcomes.push outcome := by
  cases steps <;> rfl

/-- The outcome of a step is of the line that was read. -/
theorem Steps.isOf {outcome : Outcome} (steps : Steps a line text (.ok outcome) after) :
    outcome.IsOf line text := by
  cases steps with
  | skipped idle => exact .skipped (Source.read_eq_none_iff.1 idle)
  | resolved read resolution =>
    exact .resolved (Source.not_isIdle_of_statementIn read) resolution.line resolution.text
  | steppedOver read => exact .faulty (Source.not_isIdle_of_statementIn read) rfl rfl

/-- The resolved lines so far, in order. -/
def resolved (a : Assembler) : List ResolvedLine := a.outcomes.toList.filterMap Outcome.resolved?

theorem mem_resolved {a : Assembler} {l : ResolvedLine} :
    l ∈ a.resolved ↔ .resolved l ∈ a.outcomes.toList := Outcome.mem_resolved

theorem resolved_of_push {a after : Assembler} {outcome : Outcome}
    (h : after.outcomes = a.outcomes.push outcome) :
    after.resolved = a.resolved ++ outcome.resolved?.toList := by
  unfold resolved
  rw [h, Array.toList_push, List.filterMap_append]
  cases outcome <;> rfl

/-- As far as the tables and the resolved lines go, a line is resolved or changes nothing. -/
theorem Steps.resolved_or_kept (steps : Steps a line text answer after) :
    (∃ s l next, Source.statementIn a.catalog text = some s ∧
      Resolution a.counter line text s a.tables l next after.tables ∧
        after.catalog = a.catalog ∧ after.resolved = a.resolved ++ [l]) ∨
      (after.catalog = a.catalog ∧ after.tables = a.tables ∧ after.resolved = a.resolved) := by
  cases steps with
  | unknown => exact Or.inr ⟨rfl, rfl, rfl⟩
  | halted => exact Or.inr ⟨rfl, rfl, rfl⟩
  | skipped => exact Or.inr ⟨rfl, rfl, by rw [resolved_of_push rfl]; exact List.append_nil _⟩
  | steppedOver => exact Or.inr ⟨rfl, rfl, by rw [resolved_of_push rfl]; exact List.append_nil _⟩
  | resolved read resolution =>
    refine Or.inl ⟨_, _, _, read, resolution, rfl, ?_⟩
    rw [resolved_of_push rfl]
    rfl

/-! ### Reachable assemblers -/

/-- The assemblers that any sequence of steps leads to. Steps may go on after one that failed, and the
line numbers need not ascend. -/
inductive Reachable (catalog : Catalog) (seeded : SymbolTable) (policy : Policy) :
    Assembler → Prop where
  | new : Reachable catalog seeded policy (new catalog seeded policy)
  | step {a : Assembler} (before : Reachable catalog seeded policy a) (line : Nat) (text : String) :
      Reachable catalog seeded policy (a.step line text).2

theorem wellFormed_new (catalog : Catalog) {seeded : SymbolTable} (built : seeded.Built)
    (policy : Policy) : (new catalog seeded policy).WellFormed where
  symbols := built.wellFormed
  pool := LiteralPool.wellFormed_empty
  counter := (by decide : Word.isAddress 0 = true)

theorem WellFormed.step {a : Assembler} (wf : a.WellFormed) (line : Nat) (text : String) :
    (a.step line text).2.WellFormed := by
  have steps := steps_step wf line text
  generalize (a.step line text).1 = answer at steps
  generalize (a.step line text).2 = after at steps
  cases steps with
  | unknown => exact wf
  | skipped => exact ⟨wf.symbols, wf.pool, wf.counter⟩
  | @resolved s l next tables read resolution =>
    have pool := resolution.operand.registersTo.wellFormed wf.pool
    have symbols : tables.symbols.WellFormed :=
      resolution.symbols ▸ wellFormed_define wf.symbols
        (resolution.definition_fits wf.symbols wf.pool wf.counter)
    exact ⟨symbols, pool, resolution.isAddress⟩
  | steppedOver read failed recover sized inside =>
    refine ⟨wf.symbols, wf.pool, ?_⟩
    have counter := Word.isAddress_iff.1 wf.counter
    rw [Word.isAddress_iff]
    dsimp only
    exact ⟨by omega, inside⟩
  | halted => exact wf

variable {catalog : Catalog} {seeded : SymbolTable} {policy : Policy}

theorem Reachable.wellFormed (built : seeded.Built) (reached : Reachable catalog seeded policy a) :
    a.WellFormed := by
  induction reached with
  | new => exact wellFormed_new catalog built policy
  | step _ line text ih => exact ih.step line text

/-- What holds before the first line, and after every step if it held before it, holds throughout. -/
theorem Reachable.invariant {motive : Assembler → Prop} (built : seeded.Built)
    (first : motive (Assembler.new catalog seeded policy))
    (step : ∀ {a line text answer after}, Reachable catalog seeded policy a →
      Steps a line text answer after → motive a → motive after)
    (reached : Reachable catalog seeded policy a) : motive a := by
  induction reached with
  | new => exact first
  | step before line text ih =>
    exact step before (steps_step (before.wellFormed built) line text) ih

theorem Reachable.settings (built : seeded.Built) (reached : Reachable catalog seeded policy a) :
    a.catalog = catalog ∧ a.policy = policy := by
  refine reached.invariant (motive := fun a => a.catalog = catalog ∧ a.policy = policy) built
    ⟨rfl, rfl⟩ ?_
  intro a line text answer after _ steps same
  cases steps <;> exact same

/-- What is true of every line when it is resolved is true of all resolved lines. -/
theorem Reachable.forall_resolved {motive : ResolvedLine → Prop} (built : seeded.Built)
    (reached : Reachable catalog seeded policy a)
    (each : ∀ {b : Assembler} {line text s l next tables}, b.WellFormed →
      Source.statementIn catalog text = some s →
      Resolution b.counter line text s b.tables l next tables → motive l) :
    ∀ l ∈ a.resolved, motive l := by
  refine reached.invariant (motive := fun a => ∀ l ∈ a.resolved, motive l) built
    (by simp [Assembler.new, resolved]) ?_
  intro b line text answer after before steps held l member
  obtain ⟨same_catalog, _⟩ := before.settings built
  rcases steps.resolved_or_kept with ⟨s, new, next, read, resolution, _, extended⟩ | ⟨_, _, kept⟩
  · rw [extended, List.mem_append, List.mem_singleton] at member
    rcases member with former | rfl
    · exact held l former
    · exact each (before.wellFormed built) (same_catalog ▸ read) resolution
  · exact held l (kept ▸ member)

/-- Each line of a source that does not halt has an outcome, at its place. -/
theorem outcomes_stepAll (wf : a.WellFormed) (number : Nat) (lines : List String) :
    ∃ later, (a.stepAll number lines).1.outcomes.toList = a.outcomes.toList ++ later ∧
      ∀ (i : Nat) (outcome : Outcome), later[i]? = some outcome →
        ∃ text, lines[i]? = some text ∧ outcome.IsOf (number + i) text := by
  induction lines generalizing a number with
  | nil => exact ⟨[], by simp [stepAll], by simp⟩
  | cons text rest ih =>
    have steps := steps_step wf number text
    have after_wf := wf.step number text
    unfold stepAll
    split
    · rename_i outcome after done
      rw [done] at steps after_wf
      obtain ⟨later, extended, placed⟩ := ih after_wf (number + 1)
      refine ⟨outcome :: later, by rw [extended, steps.outcomes]; simp, ?_⟩
      intro i other found
      cases i with
      | zero =>
        cases found
        exact ⟨text, rfl, steps.isOf⟩
      | succ i =>
        obtain ⟨later_text, here, isOf⟩ := placed i other found
        rw [Nat.add_right_comm, Nat.add_assoc] at isOf
        exact ⟨later_text, here, isOf⟩
    · rename_i fault after failed
      rw [failed] at steps
      cases steps <;> exact ⟨[], by simp, by simp⟩

/-- Each line of a source is a step. -/
theorem reachable_stepAll (reached : Reachable catalog seeded policy a) (number : Nat)
    (lines : List String) : Reachable catalog seeded policy (a.stepAll number lines).1 := by
  induction lines generalizing a number with
  | nil => exact reached
  | cons text rest ih =>
    have stepped := reached.step number text
    unfold stepAll
    split
    · rename_i after done
      rw [done] at stepped
      exact ih stepped (number + 1)
    · rename_i fault after failed
      rw [failed] at stepped
      exact stepped

/-- The assembler after the last line of a source that could be assembled. -/
theorem reachable_run (catalog : Catalog) (seeded : SymbolTable) (policy : Policy)
    (lines : List String) :
    Reachable catalog seeded policy ((new catalog seeded policy).stepAll 1 lines).1 :=
  reachable_stepAll .new 1 lines

end Assembler

end Assembly

end SicXe
