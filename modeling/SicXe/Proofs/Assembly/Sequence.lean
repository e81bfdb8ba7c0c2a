import SicXe.Proofs.Assembly.Settle

/-!
# Sources in parts

A source is assembled line by line, so it can be cut anywhere: its rest goes on from what its first part
has left (`stepAll_append`). A source that halts does so at one line, and the assembler is what the lines
before it have left (`stepAll_halted`). No line looks at the outcomes of others: with other outcomes
before them, lines do the same (`stepAll_recalling`).
-/
namespace SicXe.Assembly.Assembler

variable {a b after : Assembler} {number : Nat} {text : String} {rest : List String}
  {outcome : Outcome} {fault : Fault}

theorem stepAll_cons_ok (done : a.step number text = (.ok outcome, after)) (rest : List String) :
    a.stepAll number (text :: rest) = after.stepAll (number + 1) rest := by
  simp only [stepAll, done]

theorem stepAll_cons_error (failed : a.step number text = (.error fault, after))
    (rest : List String) : a.stepAll number (text :: rest) = (after, some fault) := by
  simp only [stepAll, failed]

theorem WellFormed.stepped {answer : Except Fault Outcome} (wf : a.WellFormed)
    (stepped : a.step number text = (answer, after)) : after.WellFormed := by
  have stepped_wf := wf.step number text
  rw [stepped] at stepped_wf
  exact stepped_wf

/-! ### Cutting a source -/

theorem stepAll_append (a : Assembler) (number : Nat) (first rest : List String) :
    a.stepAll number (first ++ rest) =
      match a.stepAll number first with
      | (b, none) => b.stepAll (number + first.length) rest
      | (b, some fault) => (b, some fault) := by
  induction first generalizing a number with
  | nil => rfl
  | cons text more ih =>
    rw [List.cons_append]
    rcases stepped : a.step number text with ⟨answer, after⟩
    cases answer with
    | ok outcome =>
      rw [stepAll_cons_ok stepped, stepAll_cons_ok stepped, ih, List.length_cons,
        Nat.add_assoc, Nat.add_comm 1]
    | error fault => rw [stepAll_cons_error stepped, stepAll_cons_error stepped]

theorem stepAll_append_of_done {first : List String} (done : a.stepAll number first = (b, none))
    (rest : List String) :
    a.stepAll number (first ++ rest) = b.stepAll (number + first.length) rest := by
  rw [stepAll_append, done]

theorem stepAll_append_of_halted {first : List String}
    (halted : a.stepAll number first = (b, some fault)) (rest : List String) :
    a.stepAll number (first ++ rest) = (b, some fault) := by
  rw [stepAll_append, halted]

/-- A fault that halts is one of its line, and the assembler is as it was. -/
theorem step_error (wf : a.WellFormed) (failed : a.step number text = (.error fault, after)) :
    after = a ∧ fault.line = number ∧ fault.text = text := by
  have steps := steps_step wf number text
  rw [failed] at steps
  cases steps with
  | unknown unread => exact ⟨rfl, rfl, rfl⟩
  | halted read failed stuck => exact ⟨rfl, rfl, rfl⟩

/-- Every line that does not halt records one outcome. -/
theorem size_outcomes_step (wf : a.WellFormed) (done : a.step number text = (.ok outcome, after)) :
    after.outcomes.size = a.outcomes.size + 1 := by
  have steps := steps_step wf number text
  rw [done] at steps
  rw [steps.outcomes, Array.size_push]

theorem size_outcomes_stepAll (wf : a.WellFormed) {lines : List String}
    (done : a.stepAll number lines = (b, none)) :
    b.outcomes.size = a.outcomes.size + lines.length := by
  induction lines generalizing a number with
  | nil =>
    cases done
    rfl
  | cons text rest ih =>
    rcases stepped : a.step number text with ⟨answer, after⟩
    cases answer with
    | ok outcome =>
      have one := size_outcomes_step wf stepped
      have after_wf := wf.stepped stepped
      rw [stepAll_cons_ok stepped] at done
      have others := ih after_wf done
      rw [List.length_cons]
      omega
    | error fault =>
      rw [stepAll_cons_error stepped] at done
      cases done

theorem size_outcomes_run {catalog : Catalog} {seeded : SymbolTable} {policy : Policy}
    (built : seeded.Built) {lines : List String}
    (done : (new catalog seeded policy).stepAll 1 lines = (b, none)) :
    b.outcomes.size = lines.length := by
  have counted := size_outcomes_stepAll (wellFormed_new catalog built policy) done
  rw [counted]
  exact Nat.zero_add _

/-- A source that halts: the lines before the fault, and the line that halts. -/
theorem stepAll_halted (wf : a.WellFormed) {lines : List String}
    (halted : a.stepAll number lines = (b, some fault)) :
    ∃ first text rest, lines = first ++ text :: rest ∧ a.stepAll number first = (b, none) ∧
      b.step (number + first.length) text = (.error fault, b) := by
  induction lines generalizing a number with
  | nil => cases halted
  | cons text rest ih =>
    rcases stepped : a.step number text with ⟨answer, after⟩
    cases answer with
    | ok outcome =>
      have after_wf := wf.stepped stepped
      rw [stepAll_cons_ok stepped] at halted
      obtain ⟨first, line, later, rfl, done, failed⟩ := ih after_wf halted
      refine ⟨text :: first, line, later, rfl, ?_, ?_⟩
      · rw [stepAll_cons_ok stepped, done]
      · rw [List.length_cons, Nat.add_comm first.length, ← Nat.add_assoc]
        exact failed
    | error other =>
      rw [stepAll_cons_error stepped] at halted
      cases halted
      obtain ⟨rfl, _⟩ := step_error wf stepped
      exact ⟨[], text, rest, rfl, rfl, stepped⟩

/-- A source that does not halt has an outcome for every line; the fault of one that does is that of the
first line without one. -/
theorem halted_stepAll {catalog : Catalog} {seeded : SymbolTable} {policy : Policy}
    (built : seeded.Built) {lines : List String} {halted : Option Fault}
    (stepped : (new catalog seeded policy).stepAll 1 lines = (b, halted)) :
    (halted = none → b.outcomes.size = lines.length) ∧
      ∀ fault, halted = some fault →
        fault.line = b.outcomes.size + 1 ∧ lines[b.outcomes.size]? = some fault.text := by
  have wf := wellFormed_new catalog built policy
  constructor
  · rintro rfl
    exact size_outcomes_run built stepped
  · rintro fault rfl
    have reached := reachable_run catalog seeded policy lines
    rw [stepped] at reached
    obtain ⟨first, text, rest, rfl, done, failed⟩ := stepAll_halted wf stepped
    obtain ⟨_, number, rfl⟩ := step_error (reached.wellFormed built) failed
    rw [size_outcomes_run built done]
    exact ⟨by rw [number, Nat.add_comm], by simp⟩

/-! ### What a source leaves standing -/

/-- What holds of an assembler, and after every step if it held before it, holds after a source. -/
theorem stepAll_induction {motive : Assembler → Prop} (wf : a.WellFormed) (first : motive a)
    (step : ∀ {b line text answer after}, Steps b line text answer after → motive b → motive after)
    (number : Nat) (lines : List String) :
    (a.stepAll number lines).1.WellFormed ∧ motive (a.stepAll number lines).1 := by
  induction lines generalizing a number with
  | nil => exact ⟨wf, first⟩
  | cons text rest ih =>
    have steps := steps_step wf number text
    rcases stepped : a.step number text with ⟨answer, after⟩
    have after_wf := wf.stepped stepped
    rw [stepped] at steps
    have held := step steps first
    cases answer with
    | ok outcome =>
      rw [stepAll_cons_ok stepped]
      exact ih after_wf held (number + 1)
    | error fault =>
      rw [stepAll_cons_error stepped]
      exact ⟨after_wf, held⟩

theorem WellFormed.stepAll (wf : a.WellFormed) (number : Nat) (lines : List String) :
    (a.stepAll number lines).1.WellFormed :=
  (stepAll_induction (motive := fun _ => True) wf trivial (fun _ _ => trivial) number lines).1

/-- The lines of a source take no definition back. -/
theorem keeps_stepAll (wf : a.WellFormed) (number : Nat) (lines : List String) :
    a.tables.symbols.Keeps (a.stepAll number lines).1.tables.symbols :=
  (stepAll_induction (motive := fun b => a.tables.symbols.Keeps b.tables.symbols) wf
    (SymbolTable.Keeps.refl _) (fun steps kept => kept.trans steps.keeps) number lines).2

/-- They take no literal out of the pool. -/
theorem grows_stepAll (wf : a.WellFormed) (number : Nat) (lines : List String) :
    a.tables.pool.Grows (a.stepAll number lines).1.tables.pool :=
  (stepAll_induction (motive := fun b => a.tables.pool.Grows b.tables.pool) wf
    (LiteralPool.Grows.refl _) (fun steps grown => grown.trans steps.grows) number lines).2

/-! ### What came before -/

/-- The assembler with other outcomes before its own. -/
def recalling (earlier : Array Outcome) (a : Assembler) : Assembler :=
  { a with outcomes := earlier ++ a.outcomes }

variable (earlier : Array Outcome)

theorem record_recalling (a : Assembler) (outcome : Outcome) :
    (a.recalling earlier).record outcome = Prod.map id (recalling earlier) (a.record outcome) := by
  simp [record, recalling]

theorem stepOver_recalling (a : Assembler) (i : Instruction) (fault : Fault) :
    (a.recalling earlier).stepOver i fault =
      Prod.map id (recalling earlier) (a.stepOver i fault) := by
  obtain ⟨catalog, policy, tables, counter, start, outcomes⟩ := a
  cases policy with
  | abort => rfl
  | recover =>
    dsimp only [stepOver, recalling]
    cases fixedSize? i with
    | none => rfl
    | some size =>
      dsimp only
      split
      · exact record_recalling earlier ⟨catalog, .recover, tables, counter + size, start, outcomes⟩ _
      · rfl

/-- One line, as a square: other outcomes may be put before it or after it. -/
theorem step_recalling (a : Assembler) (line : Nat) (text : String) :
    (a.recalling earlier).step line text =
      Prod.map id (recalling earlier) (a.step line text) := by
  unfold step
  have catalog : (a.recalling earlier).catalog = a.catalog := rfl
  rw [catalog]
  cases Source.read a.catalog line text with
  | error e => rfl
  | ok stated =>
    cases stated with
    | none => exact record_recalling earlier a .skipped
    | some s =>
      dsimp only
      unfold stepStatement
      have counter : (a.recalling earlier).counter = a.counter := rfl
      have tables : (a.recalling earlier).tables = a.tables := rfl
      rw [counter, tables]
      cases (resolveLine a.counter line text s).run a.tables with
      | ok result tables =>
        exact record_recalling earlier { a with
          tables := tables
          counter := result.2
          start := a.startAfter s.instruction result.2 } (.resolved result.1)
      | error e touched =>
        exact stepOver_recalling earlier
          { a with tables := (Savepoint.take a.tables s.label).restore touched } _ _

theorem stepAll_recalling (a : Assembler) (number : Nat) (lines : List String) :
    (a.recalling earlier).stepAll number lines =
      Prod.map (recalling earlier) id (a.stepAll number lines) := by
  induction lines generalizing a number with
  | nil => rfl
  | cons text rest ih =>
    have square := step_recalling earlier a number text
    rcases stepped : a.step number text with ⟨answer, after⟩
    rw [stepped] at square
    cases answer with
    | ok outcome => rw [stepAll_cons_ok stepped, stepAll_cons_ok square, ih]
    | error fault =>
      rw [stepAll_cons_error stepped, stepAll_cons_error square]
      rfl

end SicXe.Assembly.Assembler
