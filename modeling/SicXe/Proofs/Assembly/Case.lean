import SicXe.Proofs.Source.Case

/-!
# Letter case

A source in which lines without apostrophes are written in other letter case makes the same program,
apart from the texts that it quotes (`run_caseless`): those are still the source's own (`quotes_run`).
-/
namespace SicXe

open Assembly

/-! ### What a program quotes -/

/-- Whether what a line records of its operand column is that column: as it stands if it waits, without
its outer blanks if it has been evaluated. -/
structure Assembly.ResolvedLine.Quotes (l : ResolvedLine) (column : Option String) : Prop where
  expression : ∀ o, l.operand = some o → column.map Text.trimmed = some o.expression
  deferred : ∀ waiting, l.deferred = some waiting → column = some waiting

/-- Whether the texts of a program are those of the lines of a source, at their places. -/
def Assembly.Program.Quotes (p : Program) (catalog : Catalog) (lines : List String) : Prop :=
  ∀ (i : Nat) (l : ResolvedLine), p.outcomes[i]? = some (.resolved l) → lines[i]? = some l.text ∧
    ∃ s, Source.statementIn catalog l.text = some s ∧ l.Quotes s.operand

namespace Operand

variable {symbols : SymbolTable} {pool pool' : LiteralPool} {expression : String} {o : Operand}

theorem expression_of_resolveRegisters (h : resolveRegisters expression = .ok o) :
    o.expression = Text.trimmed expression := by
  cases resolveRegisters_eq_iff.1 h
  rfl

theorem expression_of_resolveNames (h : resolveNames expression = .ok o) :
    o.expression = Text.trimmed expression := by
  dsimp only [resolveNames] at h
  split at h
  · cases h
  · cases h
    rfl

end Operand

namespace Assembly

theorem expression_of_evaluate {i : Instruction} {symbols : SymbolTable} {pool pool' : LiteralPool}
    {expression : String} {o : Operand} (h : evaluate i symbols pool expression = .ok (o, pool')) :
    o.expression = Text.trimmed expression := by
  unfold evaluate at h
  split at h
  · obtain ⟨_, o, read, rfl⟩ := Operand.map_pool_ok h
    exact Operand.expression_of_resolveNames read
  · obtain ⟨_, o, read, rfl⟩ := Operand.map_pool_ok h
    exact Operand.expression_of_resolveNames read
  · obtain ⟨_, o, read, rfl⟩ := Operand.map_pool_ok h
    exact Operand.expression_of_resolveRegisters read
  · exact Operand.expression_of_resolve h

theorem Resolution.quotes {counter : Int} {line : Nat} {text : String} {s : Source.Statement}
    {t t' : Tables} {l : ResolvedLine} {next : Int}
    (h : Resolution counter line text s t l next t') : l.Quotes s.operand := by
  have read := h.operand
  generalize s.operand = column at read ⊢
  generalize operand : l.operand = value at read
  generalize deferred : l.deferred = waiting at read
  generalize t'.pool = pool at read
  cases read with
  | absent => exact ⟨by simp [operand], by simp [deferred]⟩
  | evaluated value =>
    refine ⟨fun o same => ?_, by simp [deferred]⟩
    rw [operand] at same
    cases same
    rw [expression_of_evaluate value]
    rfl
  | deferred wants sized =>
    refine ⟨by simp [operand], fun waiting same => ?_⟩
    rw [deferred] at same
    exact same

/-- An operand that is evaluated at the end has the text for which it waited. -/
theorem ResolvedLine.Quotes.settled {l : ResolvedLine} {column : Option String} (h : l.Quotes column)
    (symbols : SymbolTable) (pool : LiteralPool) :
    (Assembler.settled symbols pool l).Quotes column := by
  unfold Assembler.settled Assembler.settleLine
  cases deferred : l.deferred with
  | none => exact h
  | some expression =>
    dsimp only
    split
    · rename_i o pool' value
      refine ⟨fun other same => ?_, fun waiting same => (nomatch same)⟩
      cases same
      rw [h.deferred expression deferred, Operand.expression_of_resolve value]
      rfl
    · exact h

namespace Assembler

variable {catalog : Catalog} {seeded : SymbolTable} {policy : Policy} {a b : Assembler}

theorem Reachable.quotes (built : seeded.Built) (reached : Reachable catalog seeded policy a) :
    ∀ l ∈ a.resolved, ∃ s, Source.statementIn catalog l.text = some s ∧ l.Quotes s.operand :=
  reached.forall_resolved built fun _ read resolution =>
    ⟨_, resolution.text ▸ read, resolution.quotes⟩

/-- A program quotes its own source. -/
theorem quotes_run (built : seeded.Built) (policy : Policy) (lines : List String) :
    ((new catalog seeded policy).run lines).Quotes catalog lines := by
  intro i l here
  have reached := reachable_run catalog seeded policy lines
  have member := Outcome.mem_resolved.2 (List.mem_of_getElem? here)
  obtain ⟨former, recorded, rfl⟩ := reached.settled_of_mem built member
  obtain ⟨s, read, quotes⟩ := reached.quotes built former recorded
  refine ⟨(placed_run built lines here).2, s, ?_, quotes.settled _ _⟩
  rw [settled_frame]
  exact read

/-! ### Runs -/

/-- Lines that differ in case take two assemblers at the same point to the same point, line by line, and
if one halts so does the other. -/
theorem stepAll_recased {lines lines' : List String} (wf : a.WellFormed) (level : a.Level b)
    (outcomes : List.Forall₂ View.caseless.SameOutcome a.outcomes.toList b.outcomes.toList)
    (recased : List.Forall₂ Source.Recased lines lines') (number : Nat) :
    (a.stepAll number lines).1.Level (b.stepAll number lines').1 ∧
      List.Forall₂ View.caseless.SameOutcome (a.stepAll number lines).1.outcomes.toList
        (b.stepAll number lines').1.outcomes.toList ∧
      (a.stepAll number lines).2.map View.caseless.fault =
        (b.stepAll number lines').2.map View.caseless.fault := by
  induction recased generalizing a b number with
  | nil => exact ⟨level, outcomes, rfl⟩
  | @cons text text' rest rest' one _ ih =>
    have reading : View.caseless.SameReading (Source.read a.catalog number text)
        (Source.read b.catalog number text') := by
      rw [level.catalog]
      exact Source.reading_of_recased one a.catalog number
    have texts : View.caseless.text text = View.caseless.text text' := by
      rcases one with rfl | ⟨_, same⟩
      · rfl
      · exact same
    have same := step_same wf level rfl texts reading
    generalize stepped : a.step number text = answer at same
    generalize stepped' : b.step number text' = answer' at same
    cases same with
    | ok outcome level recorded recorded' =>
      rw [stepAll_cons_ok stepped, stepAll_cons_ok stepped']
      refine ih (wf.stepped stepped) level ?_ (number + 1)
      rw [recorded, recorded', Array.toList_push, Array.toList_push]
      exact List.rel_append outcomes (.cons outcome .nil)
    | error looks =>
      rw [stepAll_cons_error stepped, stepAll_cons_error stepped']
      exact ⟨level, outcomes, congrArg some looks⟩

/-- Letter case does not matter outside of lines with an apostrophe: the program has the same tables,
addresses and length, and line by line the same outcome, apart from the case of the texts in it. Each
program has those of its own source. -/
theorem run_caseless (built : seeded.Built) (policy : Policy) {lines lines' : List String}
    (recased : List.Forall₂ Source.Recased lines lines') :
    let p := (new catalog seeded policy).run lines
    let q := (new catalog seeded policy).run lines'
    p.SameIn .caseless q ∧ q.length = p.length ∧
      q.outcomes.map View.caseless.outcome = p.outcomes.map View.caseless.outcome ∧
      p.Quotes catalog lines ∧ q.Quotes catalog lines' := by
  have wf := wellFormed_new catalog built policy
  have level : (new catalog seeded policy).Level (new catalog seeded policy) :=
    ⟨rfl, rfl, rfl, rfl, rfl⟩
  have reached := reachable_run catalog seeded policy lines
  have reached' := reachable_run catalog seeded policy lines'
  -- Every line has its outcome here, idle ones too, so the outcomes correspond place by place.
  obtain ⟨level, outcomes, halts⟩ := stepAll_recased wf level .nil recased 1
  have same := sameIn_finish built reached reached' ⟨level, significant_same outcomes⟩ halts
  refine ⟨same, ?_, ?_, quotes_run built policy lines, quotes_run built policy lines'⟩
  · have counter := same.counter
    have start := same.start
    unfold Program.length
    rw [run_eq, run_eq, counter, start]
  · rw [run_eq, run_eq, finish_eq built reached, finish_eq built reached', level.tables]
    exact (settled_same outcomes _ _).1.symm

/-- Case is folded in mnemonics, labels, an index suffix, registers and symbols that come late. One line
has an apostrophe and stays as it is, one is stepped over, and the last one halts. -/
theorem run_caseless_folded :
    let catalog : Catalog := ⟨[.machine "LDA" 0x00 .three, .machine "CLEAR" 0xB4 .two]⟩
    let lines := ["start 4096", "+lda beta,x", "clear x", "Alpha WORD =C'aB'", "beta word alpha-1",
      "2x word 1", "lda gamma", "foo bar"]
    let lines' := ["START 4096", "+LDA Beta,X", "Clear X", "Alpha WORD =C'aB'", "BETA word ALPHA-1",
      "2X WORD 1", "LDA Gamma", "Foo Bar"]
    let p := (new catalog .empty .recover).run lines
    let q := (new catalog .empty .recover).run lines'
    p.faults = [⟨6, "2x word 1", .invalidLabel ⟨"2x", .firstCharacter⟩⟩,
        ⟨7, "lda gamma", .undefinedSymbol "gamma"⟩,
        ⟨8, "foo bar", .unknownInstruction 8 "foo" (some "bar")⟩] ∧
      p.SameIn .caseless q ∧ q.length = p.length ∧
      q.outcomes.map View.caseless.outcome = p.outcomes.map View.caseless.outcome ∧
      p.Quotes catalog lines ∧ q.Quotes catalog lines' := by
  refine ⟨by decide +kernel, ?_⟩
  exact run_caseless .empty .recover (by decide +kernel)

end Assembler

end Assembly

end SicXe
