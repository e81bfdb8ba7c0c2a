import SicXe.Proofs.Assembly.Sequence

/-!
# Every line is accounted for

A program has an outcome for every line up to the one that halts, at its place. Its faults come from
three sides: those that were recorded when a line was stepped over, those of operands that still wait at
the end, and the halting one. As an outcome names no line but its own (`Outcome.IsOf`), the faults of
each side ascend with the lines (`ascending_numbers`) and no line has two, and a line that has none is
idle or fully resolved (`run_accountsFor`).
-/
namespace SicXe.Assembly

namespace Outcome

/-- Nothing is left to be said of a line: it is idle, or resolved with an operand that does not wait. -/
def Settled (outcome : Outcome) : Prop :=
  outcome = .skipped ∨ ∃ l, outcome = .resolved l ∧ l.deferred = none

/-- The number of a line that was stepped over. -/
def faultyLine? (outcome : Outcome) : Option Nat := outcome.fault?.map Fault.line

/-- The number of a line whose operand waits. -/
def waitingLine? (outcome : Outcome) : Option Nat :=
  (outcome.resolved?.filter (·.deferred.isSome)).map ResolvedLine.line

variable {outcome : Outcome} {number n : Nat} {text : String}

theorem IsOf.faultyLine? (h : outcome.IsOf number text) (named : outcome.faultyLine? = some n) :
    n = number := by
  cases h with
  | skipped idle => cases named
  | resolved active line same => cases named
  | faulty active line same =>
    cases named
    exact line

theorem IsOf.waitingLine? (h : outcome.IsOf number text) (named : outcome.waitingLine? = some n) :
    n = number := by
  cases h with
  | skipped idle => cases named
  | @resolved l active line same =>
    obtain ⟨other, found, rfl⟩ := Option.map_eq_some_iff.1 named
    cases (Option.filter_eq_some_iff.1 found).1
    exact line
  | faulty active line same => cases named

/-- A line is settled, or it is in one of the two ways not, but not in both. -/
theorem settled_iff (outcome : Outcome) :
    outcome.Settled ↔ outcome.faultyLine? = none ∧ outcome.waitingLine? = none := by
  cases outcome with
  | skipped => simp [Settled, Outcome.faultyLine?, Outcome.waitingLine?, fault?, resolved?]
  | resolved l =>
    simp [Settled, Outcome.faultyLine?, Outcome.waitingLine?, fault?, resolved?]
  | faulty fault => simp [Settled, Outcome.faultyLine?, fault?]

theorem waitingLine?_of_faulty (named : outcome.faultyLine? = some n) :
    outcome.waitingLine? = none := by
  cases outcome with
  | skipped => cases named
  | resolved l => cases named
  | faulty fault => rfl

end Outcome

/-- Each outcome is of the line at its place, counted from one. -/
def Placed (lines : List String) (outcomes : List Outcome) : Prop :=
  ∀ (i : Nat) (outcome : Outcome), outcomes[i]? = some outcome →
    ∃ text, lines[i]? = some text ∧ outcome.IsOf (i + 1) text

/-! ### Numbers of lines -/

section Numbers

variable {lines : List String} {outcomes : List Outcome} {number? : Outcome → Option Nat}
  (own : ∀ {outcome number text n}, outcome.IsOf number text → number? outcome = some n → n = number)

include own

/-- Numbers that outcomes give of their lines ascend, whichever outcomes give one. -/
theorem ascending_numbers (placed : Placed lines outcomes) :
    (outcomes.filterMap number?).Pairwise (· < ·) := by
  rw [List.pairwise_filterMap, List.pairwise_iff_getElem]
  intro i j i_lt j_lt before m named n named'
  obtain ⟨_, _, isOf⟩ := placed i _ (List.getElem?_eq_getElem i_lt)
  obtain ⟨_, _, isOf'⟩ := placed j _ (List.getElem?_eq_getElem j_lt)
  rw [own isOf named, own isOf' named']
  exact Nat.succ_lt_succ before

/-- A number is given by the outcome of its line, or by none. -/
theorem succ_mem_numbers (placed : Placed lines outcomes) {i : Nat} {outcome : Outcome}
    (here : outcomes[i]? = some outcome) :
    i + 1 ∈ outcomes.filterMap number? ↔ number? outcome = some (i + 1) := by
  rw [List.mem_filterMap]
  constructor
  · rintro ⟨other, member, named⟩
    obtain ⟨j, there⟩ := List.mem_iff_getElem?.1 member
    obtain ⟨_, _, isOf⟩ := placed j other there
    have same_place : i = j := Nat.succ_inj.1 (own isOf named)
    rw [same_place, there] at here
    cases here
    exact named
  · intro named
    exact ⟨outcome, List.mem_of_getElem? here, named⟩

/-- No outcome gives the number of a line further down. -/
theorem numbers_le (placed : Placed lines outcomes) {n : Nat}
    (member : n ∈ outcomes.filterMap number?) : n ≤ outcomes.length := by
  obtain ⟨outcome, recorded, named⟩ := List.mem_filterMap.1 member
  obtain ⟨i, here⟩ := List.mem_iff_getElem?.1 recorded
  obtain ⟨_, _, isOf⟩ := placed i outcome here
  rw [own isOf named]
  exact (List.getElem?_eq_some_iff.1 here).1

/-- The number that an outcome gives is its own. -/
theorem number_eq_some_iff (placed : Placed lines outcomes) {i : Nat} {outcome : Outcome}
    (here : outcomes[i]? = some outcome) :
    number? outcome = some (i + 1) ↔ number? outcome ≠ none := by
  obtain ⟨_, _, isOf⟩ := placed i outcome here
  cases named : number? outcome with
  | none => simp
  | some n => simp [own isOf named]

end Numbers

/-! ### Programs -/

/-- How a program accounts for the lines of its source. -/
structure Program.AccountsFor (p : Program) (lines : List String) : Prop where
  complete : p.halted = none → p.outcomes.length = lines.length
  /-- The fault that halts is that of the first line without an outcome. -/
  halted : ∀ fault, p.halted = some fault →
    fault.line = p.outcomes.length + 1 ∧ lines[p.outcomes.length]? = some fault.text
  placed : Placed lines p.outcomes
  faults : ∃ recovered, p.faults = recovered ++ p.undefined ++ p.halted.toList ∧
    (∀ fault, fault ∈ recovered ↔ .faulty fault ∈ p.outcomes) ∧
    (recovered.map Fault.line).Pairwise (· < ·)
  undefined : (p.undefined.map Fault.line).Pairwise (· < ·)
  /-- No line has two faults. -/
  distinct : (p.faults.map Fault.line).Nodup
  absent : ∀ (i : Nat) (outcome : Outcome), p.outcomes[i]? = some outcome →
    ((∀ fault ∈ p.faults, fault.line ≠ i + 1) ↔ outcome.Settled)

theorem Outcome.mem_faults {outcomes : List Outcome} {fault : Fault} :
    fault ∈ outcomes.filterMap Outcome.fault? ↔ .faulty fault ∈ outcomes := by
  rw [List.mem_filterMap]
  constructor
  · rintro ⟨outcome, member, found⟩
    cases outcome with
    | faulty other =>
      cases found
      exact member
    | skipped => cases found
    | resolved l => cases found
  · intro member
    exact ⟨_, member, rfl⟩

section Faults

variable {p : Program} {lines : List String} (placed : Placed lines p.outcomes)

/-- The numbers of the lines that have a fault, side by side. -/
theorem lines_faults
    (undefined : p.undefined.map Fault.line = p.outcomes.filterMap Outcome.waitingLine?) :
    p.faults.map Fault.line = p.outcomes.filterMap Outcome.faultyLine? ++
      p.outcomes.filterMap Outcome.waitingLine? ++ p.halted.toList.map Fault.line := by
  have recovered : (p.outcomes.filterMap Outcome.fault?).map Fault.line =
      p.outcomes.filterMap Outcome.faultyLine? := List.map_filterMap
  rw [Program.faults, List.map_append, List.map_append, recovered, undefined]

include placed

/-- The outcome of a line is not faulty and waiting at once. -/
theorem nodup_recorded : (p.outcomes.filterMap Outcome.faultyLine? ++
    p.outcomes.filterMap Outcome.waitingLine?).Nodup := by
  rw [List.nodup_append]
  refine ⟨(ascending_numbers Outcome.IsOf.faultyLine? placed).imp Nat.ne_of_lt,
    (ascending_numbers Outcome.IsOf.waitingLine? placed).imp Nat.ne_of_lt, ?_⟩
  rintro m faulty _ waits rfl
  obtain ⟨outcome, recorded, named⟩ := List.mem_filterMap.1 faulty
  obtain ⟨i, here⟩ := List.mem_iff_getElem?.1 recorded
  obtain ⟨_, _, isOf⟩ := placed i outcome here
  obtain rfl := isOf.faultyLine? named
  have waits_too := (succ_mem_numbers Outcome.IsOf.waitingLine? placed here).1 waits
  rw [Outcome.waitingLine?_of_faulty named] at waits_too
  cases waits_too

/-- A line is left out by both exactly if it is settled. -/
theorem not_mem_recorded_iff {i : Nat} {outcome : Outcome} (here : p.outcomes[i]? = some outcome) :
    i + 1 ∉ p.outcomes.filterMap Outcome.faultyLine? ++ p.outcomes.filterMap Outcome.waitingLine? ↔
      outcome.Settled := by
  rw [List.mem_append, succ_mem_numbers Outcome.IsOf.faultyLine? placed here,
    succ_mem_numbers Outcome.IsOf.waitingLine? placed here,
    number_eq_some_iff Outcome.IsOf.faultyLine? placed here,
    number_eq_some_iff Outcome.IsOf.waitingLine? placed here, outcome.settled_iff]
  simp only [not_or, not_not]

/-- All that is said of faults follows from where the outcomes stand and which line halts. -/
theorem accountsFor_of_placed
    (complete : p.halted = none → p.outcomes.length = lines.length)
    (halted : ∀ fault, p.halted = some fault →
      fault.line = p.outcomes.length + 1 ∧ lines[p.outcomes.length]? = some fault.text)
    (undefined : p.undefined.map Fault.line = p.outcomes.filterMap Outcome.waitingLine?) :
    p.AccountsFor lines := by
  have numbers := lines_faults undefined
  -- The halting line is behind all lines with an outcome.
  have beyond : ∀ n ∈ p.halted.toList.map Fault.line, n = p.outcomes.length + 1 := by
    intro n member
    obtain ⟨fault, here, rfl⟩ := List.mem_map.1 member
    exact (halted fault (Option.mem_toList.1 here)).1
  refine ⟨complete, halted, placed, ⟨_, rfl, fun _ => Outcome.mem_faults, ?_⟩, ?_, ?_, ?_⟩
  · rw [List.map_filterMap]
    exact ascending_numbers Outcome.IsOf.faultyLine? placed
  · rw [undefined]
    exact ascending_numbers Outcome.IsOf.waitingLine? placed
  · rw [numbers, List.nodup_append]
    refine ⟨nodup_recorded placed, by cases p.halted <;> simp, ?_⟩
    rintro m recorded _ last rfl
    have halting := beyond m last
    have inside : m ≤ p.outcomes.length := by
      rcases List.mem_append.1 recorded with faulty | waits
      · exact numbers_le Outcome.IsOf.faultyLine? placed faulty
      · exact numbers_le Outcome.IsOf.waitingLine? placed waits
    omega
  · intro i outcome here
    have inside := (List.getElem?_eq_some_iff.1 here).1
    have listed : (∀ fault ∈ p.faults, fault.line ≠ i + 1) ↔ i + 1 ∉ p.faults.map Fault.line := by
      simp [List.mem_map]
    have not_halting : i + 1 ∉ p.halted.toList.map Fault.line := fun member => by
      have halting := beyond _ member
      omega
    rw [listed, numbers, List.mem_append, ← not_mem_recorded_iff placed here]
    simp only [not_halting, or_false]

end Faults

namespace Assembler

variable {catalog : Catalog} {seeded : SymbolTable} {policy : Policy} {a : Assembler}

/-- A line has a fault at the end exactly if it goes on waiting. -/
theorem line_unsettled? (symbols : SymbolTable) (pool : LiteralPool) (l : ResolvedLine) :
    (unsettled? symbols pool l).map Fault.line =
      Outcome.waitingLine? (.resolved (settled symbols pool l)) := by
  unfold unsettled? settled settleLine Outcome.waitingLine?
  cases deferred : l.deferred with
  | none => simp [Outcome.resolved?, deferred]
  | some expression =>
    dsimp only
    cases Operand.resolve symbols pool expression with
    | ok result => simp [Outcome.resolved?]
    | error e => simp [Outcome.resolved?, deferred]

theorem lines_undefined (built : seeded.Built) (reached : Reachable catalog seeded policy a)
    (halted : Option Fault) :
    (a.finish halted).undefined.map Fault.line =
      (a.finish halted).outcomes.filterMap Outcome.waitingLine? := by
  rw [finish_eq built reached]
  dsimp only
  rw [resolved, List.filterMap_filterMap, List.map_filterMap, List.filterMap_map]
  refine List.filterMap_congr fun outcome _ => ?_
  cases outcome with
  | resolved l => exact line_unsettled? _ _ l
  | skipped => rfl
  | faulty fault => rfl

/-- Every line of a source is accounted for once: it has an outcome at its place, or comes after the
last one that has, and it has a fault unless nothing is left to be said of it. -/
theorem run_accountsFor (built : seeded.Built) (lines : List String) :
    ((new catalog seeded policy).run lines).AccountsFor lines := by
  have placed : Placed lines ((new catalog seeded policy).run lines).outcomes :=
    fun _ _ here => isOf_run built lines here
  have reached := reachable_run catalog seeded policy lines
  rw [run_eq] at placed ⊢
  rcases stepped : (new catalog seeded policy).stepAll 1 lines with ⟨b, halted⟩
  rw [stepped] at reached placed
  obtain ⟨complete, at_line⟩ := halted_stepAll built stepped
  have length := length_finish built reached halted
  have halted_eq : (b.finish halted).halted = halted := rfl
  rw [← length, ← halted_eq] at complete at_line
  exact accountsFor_of_placed placed complete at_line (lines_undefined built reached halted)

/-- Each way in which a line can end: stepped over, idle, still waiting, resolved in time and later on, and
halting, with one line left behind it. -/
theorem run_accountsFor_each_way :
    let lines := ["A WORD 1+2", "WORD 1+2+3", " . idle", "WORD C", "WORD B", "B WORD 1", "A", "WORD 2"]
    let p := (new .empty .empty .recover).run lines
    p.faults.map Fault.line = [2, 4, 7] ∧ p.outcomes.length = 6 ∧ p.AccountsFor lines := by
  refine ⟨by decide +kernel, by decide +kernel, ?_⟩
  exact run_accountsFor .empty
    ["A WORD 1+2", "WORD 1+2+3", " . idle", "WORD C", "WORD B", "B WORD 1", "A", "WORD 2"]

end Assembler

end SicXe.Assembly
