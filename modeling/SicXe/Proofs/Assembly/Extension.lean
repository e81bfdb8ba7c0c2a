import SicXe.Proofs.Assembly.Recovery

/-!
# A source that goes on

Lines that follow a source take nothing back of what was made of it: its outcomes, symbols and literals
stay, and the first START has set the start address for good (`Steps.start_kept`). But the program of the
longer source is finished later, so operands that wait may find their symbols further down
(`run_continues`).
-/
namespace SicXe.Assembly

/-- How the program `p` of a source of this many lines stands to the program `q` of a source that goes on
where that one ends. -/
structure Program.Continues (p q : Program) (count : Nat) : Prop where
  counted : p.outcomes.length = count
  outcomes : List.Forall₂ (Outcome.FilledIn q) p.outcomes (q.outcomes.take count)
  symbols : p.symbols.Keeps q.symbols
  pool : p.pool.literals <+: q.pool.literals
  start : ∀ l ∈ p.resolved, l.instruction = .directive .start → q.start = p.start

namespace Assembler

variable {catalog : Catalog} {seeded : SymbolTable} {policy : Policy} {a after : Assembler}
  {line : Nat} {text : String} {answer : Except Fault Outcome}

/-! ### The start address -/

/-- A start address that is set does not change. -/
theorem Steps.start_kept (steps : Steps a line text answer after) {start : Int}
    (set : a.start = some start) : after.start = some start := by
  cases steps with
  | resolved read resolution =>
    dsimp only
    rw [startAfter, set]
  | _ => exact set

theorem start_kept_stepAll (wf : a.WellFormed) {start : Int} (set : a.start = some start)
    (number : Nat) (lines : List String) : (a.stepAll number lines).1.start = some start :=
  (stepAll_induction (motive := fun b => b.start = some start) wf set
    (fun steps held => steps.start_kept held) number lines).2

theorem isSome_startAfter (a : Assembler) (next : Int) :
    (a.startAfter (.directive .start) next).isSome = true := by
  unfold startAfter
  cases a.start <;> rfl

/-- Whoever has a resolved START has a start address. -/
theorem Reachable.started (built : seeded.Built) (reached : Reachable catalog seeded policy a) :
    ∀ l ∈ a.resolved, l.instruction = .directive .start → a.start.isSome = true := by
  refine reached.invariant (motive := fun a => ∀ l ∈ a.resolved,
    l.instruction = .directive .start → a.start.isSome = true) built
    (by simp [Assembler.new, resolved]) ?_
  intro a line text answer after _ steps held l member start
  have kept (former : l ∈ a.resolved) : after.start.isSome = true := by
    obtain ⟨address, set⟩ := Option.isSome_iff_exists.1 (held l former start)
    rw [steps.start_kept set]
    rfl
  cases steps with
  | unknown => exact kept member
  | halted => exact kept member
  | skipped => exact kept (by simpa [resolved, Outcome.resolved?] using member)
  | steppedOver => exact kept (by simpa [resolved, Outcome.resolved?] using member)
  | @resolved s new next tables read resolution =>
    rw [resolved_of_push rfl, List.mem_append] at member
    rcases member with former | here
    · exact kept former
    · have same : l = new := by simpa [Outcome.resolved?] using here
      rw [same, resolution.instruction] at start
      dsimp only
      rw [start]
      exact isSome_startAfter a next

/-! ### Programs -/

/-- An assembler that has gone on from another one, each finished where it stands. -/
theorem continues_finish {b d : Assembler} (built : seeded.Built)
    (reached : Reachable catalog seeded policy b) (reached' : Reachable catalog seeded policy d)
    {later : List Outcome} (extended : d.outcomes.toList = b.outcomes.toList ++ later)
    (keeps : b.tables.symbols.Keeps d.tables.symbols) (grows : b.tables.pool.Grows d.tables.pool)
    (started : ∀ start, b.start = some start → d.start = some start) (halted : Option Fault) :
    (b.finish none).Continues (d.finish halted) b.outcomes.size := by
  have lines : ∀ l ∈ (b.finish none).resolved, l.instruction = .directive .start →
      (d.finish halted).start = (b.finish none).start := by
    intro l member start
    obtain ⟨former, recorded, rfl⟩ := reached.settled_of_mem built member
    rw [settled_frame] at start
    obtain ⟨address, set⟩ := Option.isSome_iff_exists.1 (reached.started built former recorded start)
    rw [finish_eq built reached, finish_eq built reached']
    dsimp only
    rw [set, started address set]
  refine ⟨?_, ?_, ?_, ?_, lines⟩
  · rw [finish_eq built reached]
    simp
  · exact filledIn_finish built reached reached' extended keeps grows none halted
  · rw [finish_eq built reached, finish_eq built reached']
    exact keeps
  · rw [finish_eq built reached, finish_eq built reached']
    exact grows.isPrefix

/-- Nothing that is written below a source changes what was made of it: if it halts, the program is that
of the source alone, and if not, the program has all of it, with operands filled in that waited. -/
theorem run_continues (built : seeded.Built) (policy : Policy) (lines further : List String) :
    let p := (new catalog seeded policy).run lines
    let q := (new catalog seeded policy).run (lines ++ further)
    (p.halted.isSome = true → q = p) ∧ (p.halted = none → p.Continues q lines.length) := by
  have wf := wellFormed_new catalog built policy
  have reached := reachable_run catalog seeded policy lines
  have reached' := reachable_run catalog seeded policy (lines ++ further)
  dsimp only
  rw [run_eq, run_eq]
  rcases first : (new catalog seeded policy).stepAll 1 lines with ⟨b, halted⟩
  rw [first] at reached
  have halted_eq : (b.finish halted).halted = halted := rfl
  dsimp only
  rw [halted_eq]
  cases halted with
  | some fault =>
    rw [stepAll_append_of_halted first]
    exact ⟨fun _ => rfl, fun complete => (nomatch complete)⟩
  | none =>
    refine ⟨fun halts => (nomatch halts), fun _ => ?_⟩
    have b_wf := reached.wellFormed built
    rw [stepAll_append_of_done first] at reached' ⊢
    obtain ⟨later, extended, _⟩ := outcomes_stepAll b_wf (1 + lines.length) further
    have keeps := keeps_stepAll b_wf (1 + lines.length) further
    have grows := grows_stepAll b_wf (1 + lines.length) further
    have started := fun start (set : b.start = some start) =>
      start_kept_stepAll b_wf set (1 + lines.length) further
    rw [← size_outcomes_run built first] at *
    exact continues_finish built reached reached' extended keeps grows started _

/-- The second line gets its operand from the third. A label comes again, START comes again, a literal
comes again before one that is new, and the last line halts. -/
theorem run_continues_forward :
    let lines := ["START 4096", "A WORD B"]
    let further := ["B WORD =C'X'", "START 9", "a WORD =X'58'", "WORD =C'YZ'", "A RESB C"]
    let p := (new .empty .empty .recover).run lines
    let q := (new .empty .empty .recover).run (lines ++ further)
    p.undefined = [⟨2, "A WORD B", .undefinedSymbol "B"⟩] ∧ q.undefined = [] ∧
      q.halted = some ⟨7, "A RESB C", .undefinedSymbol "C"⟩ ∧ q.start = 4096 ∧
      p.Continues q 2 := by
  refine ⟨by decide +kernel, by decide +kernel, by decide +kernel, by decide +kernel, ?_⟩
  exact (run_continues .empty .recover ["START 4096", "A WORD B"]
    ["B WORD =C'X'", "START 9", "a WORD =X'58'", "WORD =C'YZ'", "A RESB C"]).2 (by decide +kernel)

end Assembler

end SicXe.Assembly
