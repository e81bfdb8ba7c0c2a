import SicXe.Proofs.Assembly.Sequence
import SicXe.Proofs.Source.Columns

/-!
# One operand and the rest of a program

An unlabelled line of an instruction with a size of its own may have any operand, or none: an assembler
that recovers is moved on by the size, if there is room for it, and keeps its tables (`step_plain`). Only
literals of the pool would leave something behind. As no later line asks for former outcomes, two
sources that differ in such an operand make programs that differ in that line's outcome and fault only
(`run_sameBut`).
-/
namespace SicXe.Assembly

/-- A line of this instruction without a label, of which the operand, if there is one, does not start
with the equals sign of a literal. -/
def Plain (catalog : Catalog) (i : Instruction) (text : String) : Prop :=
  ∃ operand, Source.statementIn catalog text = some ⟨none, i, operand⟩ ∧
    ∀ column, operand = some column → column.toList.head? ≠ some '='

/-- How two programs stand to each other that differ in one line only, of the given number. -/
structure Program.SameBut (number : Nat) (p q : Program) : Prop where
  symbols : q.symbols = p.symbols
  pool : q.pool = p.pool
  start : q.start = p.start
  counter : q.counter = p.counter
  length : q.length = p.length
  size : q.outcomes.length = p.outcomes.length
  outcomes : ∀ i, i + 1 ≠ number → q.outcomes[i]? = p.outcomes[i]?
  /-- Apart from at most one fault of the line in each, the operands without a value are the same. -/
  undefined : ∃ earlier later, ∃ own own' : Option Fault,
    p.undefined = earlier ++ own.toList ++ later ∧ q.undefined = earlier ++ own'.toList ++ later ∧
      ∀ fault, own = some fault ∨ own' = some fault → fault.line = number
  /-- Both are complete or both halted at the same line, and at that very fault if it is another
  line's. -/
  halted : q.halted.map Fault.line = p.halted.map Fault.line
  fault : ∀ fault, fault.line ≠ number → (q.halted = some fault ↔ p.halted = some fault)

theorem Program.SameBut.refl (number : Nat) (p : Program) : p.SameBut number p where
  symbols := rfl
  pool := rfl
  start := rfl
  counter := rfl
  length := rfl
  size := rfl
  outcomes := fun _ _ => rfl
  undefined := ⟨p.undefined, [], none, none, by simp, by simp, by simp⟩
  halted := rfl
  fault := fun _ _ => Iff.rfl

/-! ### The line -/

theorem following_of_sized {i : Instruction} {size : Nat} (sized : fixedSize? i = some size)
    (counter : Int) (operand : Option Operand) :
    following i counter operand = .ok (counter + size) := by
  cases i with
  | machine mnemonic opcode format => simp only [following, sized, Option.getD_some]
  | directive d =>
    cases d with
    | start | byte | resb | resw | equ => cases sized
    | _ => simp only [following, sized, Option.getD_some]

namespace Assembler

variable {catalog : Catalog} {seeded : SymbolTable} {policy : Policy} {a : Assembler}
  {i : Instruction} {text : String} {size : Nat}

theorem startAfter_of_sized (a : Assembler) (sized : fixedSize? i = some size) (next : Int) :
    a.startAfter i next = a.start := by
  have no_start : i ≠ .directive .start := by
    rintro rfl
    cases sized
  unfold startAfter
  rw [if_neg no_start]
  cases a.start <;> rfl

/-- What a resolved plain line does: it moves the counter by its size, and that is all. -/
theorem resolution_plain {line : Nat} {s : Source.Statement} {l : ResolvedLine} {next : Int}
    {tables : Tables} (plain : Plain catalog i text) (sized : fixedSize? i = some size)
    (read : Source.statementIn catalog text = some s)
    (resolution : Resolution a.counter line text s a.tables l next tables) :
    s.instruction = i ∧ next = a.counter + size ∧ tables = a.tables := by
  obtain ⟨operand, stated, other⟩ := plain
  cases read.symm.trans stated
  have moved := resolution.following
  rw [following_of_sized sized] at moved
  cases moved
  have symbols : tables.symbols = a.tables.symbols := resolution.symbols
  have pool : tables.pool = a.tables.pool := by
    have column := resolution.operand
    generalize l.operand = value at column
    generalize l.deferred = deferred at column
    generalize tables.pool = pool at column
    cases column with
    | absent => rfl
    | deferred => rfl
    | @evaluated expression _ _ value =>
      have flush := Source.flush_operand read rfl
      have no_equals : (Text.trim expression.toList).head? ≠ some '=' := fun equals =>
        other expression rfl (Text.head?_of_trim flush equals)
      exact pool_of_evaluate no_equals value
  refine ⟨rfl, rfl, ?_⟩
  cases tables
  cases symbols
  cases pool
  rfl

/-- The assembler past a line that takes this many bytes and leaves nothing but its outcome. -/
def past (a : Assembler) (size : Nat) (outcome : Outcome) : Assembler :=
  { a with counter := a.counter + size, outcomes := a.outcomes.push outcome }

/-- Whether a plain line halts depends on the room for it alone, not on its operand. -/
theorem step_plain (wf : a.WellFormed) (recover : a.policy = .recover)
    (plain : Plain a.catalog i text) (sized : fixedSize? i = some size) (line : Nat) :
    (a.counter + size ≤ Word.maxAddress ∧ ∃ outcome,
      a.step line text = (.ok outcome, a.past size outcome) ∧
        ∀ l, outcome = .resolved l → l.line = line) ∨
    (¬ a.counter + size ≤ Word.maxAddress ∧ ∃ fault, a.step line text = (.error fault, a) ∧
      fault.line = line) := by
  have steps := steps_step wf line text
  rcases stepped : a.step line text with ⟨answer, after⟩
  rw [stepped] at steps
  have read := plain
  obtain ⟨operand, stated, _⟩ := read
  have states : Source.read a.catalog line text = .ok (some ⟨none, i, operand⟩) :=
    Source.read_eq_some_iff.2 stated
  cases steps with
  | unknown unread =>
    rw [states] at unread
    cases unread
  | skipped idle =>
    rw [states] at idle
    cases idle
  | @resolved s l next tables read resolution =>
    obtain ⟨rfl, rfl, rfl⟩ := resolution_plain plain sized read resolution
    have bounds := Word.isAddress_iff.1 resolution.isAddress
    rw [startAfter_of_sized a sized]
    refine Or.inl ⟨bounds.2, .resolved l, rfl, fun _ same => ?_⟩
    cases same
    exact resolution.line
  | @steppedOver s e touched size' read failed recovers sized' inside =>
    cases read.symm.trans stated
    cases sized.symm.trans sized'
    exact Or.inl ⟨inside, _, rfl, fun _ same => nomatch same⟩
  | @halted s e touched read failed stuck =>
    cases read.symm.trans stated
    exact Or.inr ⟨stuck recover size sized, _, rfl, rfl⟩

/-! ### The lines after it -/

theorem past_eq_recalling (a : Assembler) (size : Nat) (outcome : Outcome) :
    a.past size outcome =
      ({ a with counter := a.counter + size, outcomes := #[] } : Assembler).recalling
        (a.outcomes.push outcome) := by
  simp [past, recalling]

/-- The outcomes of two sources that differ in one line, as far as they are those of other lines. -/
theorem getElem?_of_ne {α : Type} (before : List α) (x y : α) (later : List α) {i : Nat}
    (other : i ≠ before.length) : (before ++ y :: later)[i]? = (before ++ x :: later)[i]? := by
  have replaced : before ++ y :: later = (before ++ x :: later).set before.length y := by
    simp
  rw [replaced, List.getElem?_set_ne other.symm]

theorem filterMap_resolved {f : ResolvedLine → Option Fault} (before : List Outcome)
    (outcome : Outcome) (later : List Outcome) :
    ((before ++ outcome :: later).filterMap Outcome.resolved?).filterMap f =
      (before.filterMap Outcome.resolved?).filterMap f ++ (outcome.resolved?.bind f).toList ++
        (later.filterMap Outcome.resolved?).filterMap f := by
  rw [List.filterMap_append, List.filterMap_append, List.append_assoc]
  cases outcome with
  | resolved l =>
    simp only [List.filterMap_cons, Outcome.resolved?, Option.bind_some]
    cases f l <;> rfl
  | skipped => rfl
  | faulty fault => rfl

theorem sameBut_finish (built : seeded.Built) {d : Assembler} {earlier : Array Outcome}
    {outcome outcome' : Outcome} (halted : Option Fault)
    (reached : Reachable catalog seeded policy (d.recalling (earlier.push outcome)))
    (reached' : Reachable catalog seeded policy (d.recalling (earlier.push outcome')))
    (own : ∀ l, outcome = .resolved l → l.line = earlier.size + 1)
    (own' : ∀ l, outcome' = .resolved l → l.line = earlier.size + 1) :
    ((d.recalling (earlier.push outcome)).finish halted).SameBut (earlier.size + 1)
      ((d.recalling (earlier.push outcome')).finish halted) := by
  have outcomes (new : Outcome) : (d.recalling (earlier.push new)).outcomes.toList =
      earlier.toList ++ new :: d.outcomes.toList := by simp [recalling]
  have fault_line {symbols : SymbolTable} {pool : LiteralPool} {new : Outcome} {fault : Fault}
      (own : ∀ l, new = .resolved l → l.line = earlier.size + 1)
      (h : new.resolved?.bind (unsettled? symbols pool) = some fault) :
      fault.line = earlier.size + 1 := by
    cases new with
    | resolved l =>
      obtain ⟨_, _, _, _, rfl⟩ := unsettled?_eq_some h
      exact own l rfl
    | skipped => cases h
    | faulty fault => cases h
  rw [finish_eq built reached, finish_eq built reached']
  constructor
  case symbols | pool | start | counter | length | halted => rfl
  case fault => exact fun _ _ => Iff.rfl
  case size => simp [outcomes]
  case outcomes =>
    intro i other
    have place : i ≠ earlier.toList.length := by
      rw [Array.length_toList]
      omega
    dsimp only
    rw [List.getElem?_map, List.getElem?_map, outcomes, outcomes, getElem?_of_ne _ _ _ _ place]
    rfl
  case undefined =>
    dsimp only
    rw [resolved, resolved, outcomes, outcomes, filterMap_resolved, filterMap_resolved]
    refine ⟨_, _, _, _, rfl, rfl, ?_⟩
    rintro fault (here | here)
    · exact fault_line own here
    · exact fault_line own' here

/-- A program that halted at a line does not depend on the fault of that line. -/
theorem sameBut_halted (a : Assembler) {number : Nat} {fault fault' : Fault}
    (line : fault.line = number) (line' : fault'.line = number) :
    (a.finish (some fault)).SameBut number (a.finish (some fault')) where
  symbols := rfl
  pool := rfl
  start := rfl
  counter := rfl
  length := rfl
  size := rfl
  outcomes := fun _ _ => rfl
  undefined :=
    ⟨(a.finish (some fault)).undefined, [], none, none, by simp, by simp [finish], by simp⟩
  halted := congrArg some (line'.trans line.symm)
  fault := by
    intro other elsewhere
    constructor
    · rintro ⟨⟩
      exact absurd line' elsewhere
    · rintro ⟨⟩
      exact absurd line elsewhere

/-- The lines after the one in which the sources differ, if it does not halt. -/
theorem sameBut_passed (built : seeded.Built) (reached : Reachable catalog seeded policy a)
    {text' : String} {outcome outcome' : Outcome}
    (stepped : a.step (a.outcomes.size + 1) text = (.ok outcome, a.past size outcome))
    (stepped' : a.step (a.outcomes.size + 1) text' = (.ok outcome', a.past size outcome'))
    (own : ∀ l, outcome = .resolved l → l.line = a.outcomes.size + 1)
    (own' : ∀ l, outcome' = .resolved l → l.line = a.outcomes.size + 1) (rest : List String) :
    let after := (a.past size outcome).stepAll (a.outcomes.size + 1 + 1) rest
    let after' := (a.past size outcome').stepAll (a.outcomes.size + 1 + 1) rest
    (after.1.finish after.2).SameBut (a.outcomes.size + 1) (after'.1.finish after'.2) := by
  have reach {text : String} {new : Outcome}
      (stepped : a.step (a.outcomes.size + 1) text = (.ok new, a.past size new)) :=
    reachable_stepAll (stepped ▸ reached.step (a.outcomes.size + 1) text)
      (a.outcomes.size + 1 + 1) rest
  have reached_after := reach stepped
  have reached_after' := reach stepped'
  dsimp only
  rw [past_eq_recalling, stepAll_recalling] at reached_after reached_after' ⊢
  rw [past_eq_recalling, stepAll_recalling]
  exact sameBut_finish built _ reached_after reached_after' own own'

/-- Two sources that differ in one line, which is in both an unlabelled line of the same instruction
with a size of its own and uses no literal in either, make under recovery the same program but for that
line: its outcome, and its fault if it has one. -/
theorem run_sameBut (built : seeded.Built) {text' : String} (sized : (fixedSize? i).isSome = true)
    (plain : Plain catalog i text) (plain' : Plain catalog i text') (before rest : List String) :
    ((new catalog seeded .recover).run (before ++ text :: rest)).SameBut (before.length + 1)
      ((new catalog seeded .recover).run (before ++ text' :: rest)) := by
  obtain ⟨size, sized⟩ := Option.isSome_iff_exists.1 sized
  have reached := reachable_run catalog seeded .recover before
  rw [run_eq, run_eq]
  rcases first : (new catalog seeded .recover).stepAll 1 before with ⟨b, halted⟩
  rw [first] at reached
  cases halted with
  | some fault =>
    rw [stepAll_append_of_halted first, stepAll_append_of_halted first]
    exact .refl _ _
  | none =>
    obtain ⟨same_catalog, recover⟩ := reached.settings built
    have b_wf : b.WellFormed := reached.wellFormed built
    have counted := size_outcomes_run built first
    rw [← same_catalog] at plain plain'
    rw [stepAll_append_of_done first, stepAll_append_of_done first, Nat.add_comm 1,
      ← counted]
    rcases step_plain b_wf recover plain sized (b.outcomes.size + 1) with
      ⟨inside, outcome, stepped, own⟩ | ⟨outside, fault, stepped, line⟩
    · rcases step_plain b_wf recover plain' sized (b.outcomes.size + 1) with
        ⟨_, outcome', stepped', own'⟩ | ⟨outside, _⟩
      · rw [stepAll_cons_ok stepped, stepAll_cons_ok stepped']
        exact sameBut_passed built reached stepped stepped' own own' rest
      · exact absurd inside outside
    · rcases step_plain b_wf recover plain' sized (b.outcomes.size + 1) with
        ⟨inside, _⟩ | ⟨_, fault', stepped', line'⟩
      · exact absurd inside outside
      · rw [stepAll_cons_error stepped, stepAll_cons_error stepped']
        exact sameBut_halted b line line'

/-- The second line waits for a symbol that does not come, or cannot be read; the third is assembled as
ever. -/
theorem run_sameBut_forward :
    let p := (new .empty .empty .recover).run ["A WORD C", "WORD B", "C WORD =C'A'"]
    let q := (new .empty .empty .recover).run ["A WORD C", "WORD 1+2+3", "C WORD =C'A'"]
    p.undefined = [⟨2, "WORD B", .undefinedSymbol "B"⟩] ∧
      q.faults = [⟨2, "WORD 1+2+3", .expressionSyntax "1+2+3" .twoTerms⟩] ∧ p.SameBut 2 q := by
  have plain : Plain .empty (.directive .word) "WORD B" :=
    ⟨some "B", rfl, by rintro _ ⟨⟩; decide⟩
  have plain' : Plain .empty (.directive .word) "WORD 1+2+3" :=
    ⟨some "1+2+3", rfl, by rintro _ ⟨⟩; decide⟩
  exact ⟨rfl, rfl, run_sameBut .empty rfl plain plain' ["A WORD C"] ["C WORD =C'A'"]⟩

end Assembler

end SicXe.Assembly
