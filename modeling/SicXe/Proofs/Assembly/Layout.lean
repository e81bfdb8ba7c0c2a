import Mathlib.Algebra.Ring.Int.Defs
import Mathlib.Data.List.Basic
import Mathlib.Data.List.Induction
import SicXe.Proofs.Assembly.Advance
import SicXe.Proofs.Assembly.Settle

/-!
# The layout of a program

Over a run the steps of the location counter add up. The counter after some outcomes is the operand of
the last START among them, or zero, and the room of all later lines (`counterAfter`); each line has the
counter after the lines before it for its address. With at most one START the length of a program is
therefore the room of the lines after it.
-/
namespace SicXe.Assembly

/-- Where START moves the counter. -/
def Outcome.origin? : Outcome → Option Int
  | .resolved l =>
    if l.instruction = .directive .start then l.operand.map Operand.value else none
  | _ => none

/-- The room that a line takes. A faulty line takes the room of its instruction. -/
def Outcome.room (catalog : Catalog) : Outcome → Int
  | .skipped => 0
  | .resolved l => l.length
  | .faulty fault =>
    (((Source.statementIn catalog fault.text).bind fun s => fixedSize? s.instruction).getD 0 : Nat)

/-- The outcomes after the last START, all of them if there is none. -/
def sinceOrigin (outcomes : List Outcome) : List Outcome :=
  (outcomes.reverse.takeWhile fun outcome => outcome.origin?.isNone).reverse

/-- The room of the lines after the last START. -/
def roomSinceOrigin (catalog : Catalog) (outcomes : List Outcome) : Int :=
  ((sinceOrigin outcomes).map (Outcome.room catalog)).sum

/-- The location counter after some outcomes. -/
def counterAfter (catalog : Catalog) (outcomes : List Outcome) : Int :=
  (outcomes.filterMap Outcome.origin?).getLast?.getD 0 + roomSinceOrigin catalog outcomes

variable {catalog : Catalog}

theorem roomSinceOrigin_concat (outcomes : List Outcome) (outcome : Outcome) :
    roomSinceOrigin catalog (outcomes ++ [outcome]) =
      if outcome.origin?.isSome then 0
      else roomSinceOrigin catalog outcomes + outcome.room catalog := by
  unfold roomSinceOrigin sinceOrigin
  rw [List.reverse_append, List.reverse_singleton, List.singleton_append, List.takeWhile_cons]
  cases outcome.origin? with
  | some origin => rfl
  | none => simp

/-- START moves the counter to its operand, any other line by the room it takes. -/
theorem counterAfter_concat (outcomes : List Outcome) (outcome : Outcome) :
    counterAfter catalog (outcomes ++ [outcome]) =
      outcome.origin?.getD (counterAfter catalog outcomes + outcome.room catalog) := by
  unfold counterAfter
  rw [roomSinceOrigin_concat, List.filterMap_append]
  cases origin : outcome.origin? with
  | some value => simp [origin]
  | none => simp [origin, Int.add_assoc]

theorem roomSinceOrigin_nonneg {outcomes : List Outcome}
    (h : ∀ o ∈ outcomes, 0 ≤ o.room catalog) : 0 ≤ roomSinceOrigin catalog outcomes := by
  induction outcomes using List.reverseRecOn with
  | nil => exact Int.le_refl 0
  | append_singleton rest o ih =>
    have here := h o (by simp)
    have earlier := ih fun o member => h o (List.mem_append_left _ member)
    rw [roomSinceOrigin_concat]
    split <;> omega

/-! ### Assemblers -/

/-- How outcomes lie behind each other, up to a location counter. -/
structure Laid (catalog : Catalog) (outcomes : List Outcome) (counter : Int) (start : Option Int) :
    Prop where
  counter : counter = counterAfter catalog outcomes
  start : start = (outcomes.filterMap Outcome.origin?).head?
  addresses : ∀ before l later, outcomes = before ++ .resolved l :: later →
    l.address = counterAfter catalog before
  rooms : ∀ l, .resolved l ∈ outcomes → l.text.utf8ByteSize < 2147483648 →
    Takes l.instruction l.operand l.length
  started : ∀ l, .resolved l ∈ outcomes → l.instruction = .directive .start →
    l.operand.isSome = true
  faulty : ∀ fault, .faulty fault ∈ outcomes →
    ∃ s size, Source.statementIn catalog fault.text = some s ∧ fixedSize? s.instruction = some size

/-- What one more outcome has to have. -/
theorem Laid.concat {outcomes : List Outcome} {counter : Int} {start : Option Int}
    (h : Laid catalog outcomes counter start) (outcome : Outcome)
    (addressed : ∀ l, outcome = .resolved l → l.address = counter ∧
      (l.text.utf8ByteSize < 2147483648 → Takes l.instruction l.operand l.length) ∧
      (l.instruction = .directive .start → l.operand.isSome = true))
    (faulty : ∀ fault, outcome = .faulty fault →
      ∃ s size, Source.statementIn catalog fault.text = some s ∧
        fixedSize? s.instruction = some size) :
    Laid catalog (outcomes ++ [outcome]) (outcome.origin?.getD (counter + outcome.room catalog))
      (start.or outcome.origin?) where
  counter := by rw [counterAfter_concat, h.counter]
  start := by
    rw [List.filterMap_append, List.head?_append, h.start]
    cases origin : outcome.origin? <;> simp [origin]
  addresses before l later parts := by
    rcases split_concat parts with ⟨rfl, new⟩ | ⟨more, former⟩
    · rw [← h.counter]
      exact (addressed l new).1
    · exact h.addresses before l more former
  rooms l member short := by
    rcases List.mem_append.1 member with former | new
    · exact h.rooms l former short
    · exact (addressed l (List.mem_singleton.1 new).symm).2.1 short
  started l member instruction := by
    rcases List.mem_append.1 member with former | new
    · exact h.started l former instruction
    · exact (addressed l (List.mem_singleton.1 new).symm).2.2 instruction
  faulty fault member := by
    rcases List.mem_append.1 member with former | new
    · exact h.faulty fault former
    · exact faulty fault (List.mem_singleton.1 new).symm

namespace Assembler

variable {seeded : SymbolTable} {policy : Policy} {a : Assembler}

theorem startAfter_eq (a : Assembler) (i : Instruction) (next : Int) :
    a.startAfter i next = a.start.or (if i = .directive .start then some next else none) := by
  unfold startAfter
  cases a.start <;> rfl

theorem Reachable.laid (built : seeded.Built) (formatted : catalog.Formatted)
    (reached : Reachable catalog seeded policy a) :
    Laid catalog a.outcomes.toList a.counter a.start := by
  refine reached.invariant
    (motive := fun a => Laid catalog a.outcomes.toList a.counter a.start) built ?_ ?_
  · exact ⟨rfl, rfl, by simp [Assembler.new], by simp [Assembler.new], by simp [Assembler.new],
      by simp [Assembler.new]⟩
  · intro a line text answer after earlier steps held
    obtain ⟨rfl, rfl⟩ := earlier.settings built
    cases steps with
    | unknown => exact held
    | halted => exact held
    | skipped =>
      have concat := held.concat .skipped (by simp) (by simp)
      rw [← Array.toList_push] at concat
      simpa only [Outcome.origin?, Outcome.room, Option.getD_none, Int.add_zero,
        Option.or_none] using concat
    | @steppedOver s e touched size read failed recover sized inside =>
      have concat := held.concat (.faulty ⟨line, text, e⟩) (by simp) (by
        rintro fault ⟨⟩
        exact ⟨s, size, read, sized⟩)
      rw [← Array.toList_push] at concat
      simpa only [Outcome.origin?, Outcome.room, read, sized, Option.bind_some, Option.getD_some,
        Option.getD_none, Option.or_none] using concat
    | @resolved s l next tables read resolution =>
      have concat := held.concat (.resolved l) (by
        rintro l ⟨⟩
        refine ⟨resolution.address, ?_, fun start => ?_⟩
        · rw [resolution.text]
          exact resolution.takes formatted read
        · obtain ⟨o, operand, _⟩ := resolution.origin start
          rw [operand]
          rfl) (by simp)
      rw [← Array.toList_push] at concat
      have started := startAfter_eq a s.instruction next
      rw [← resolution.instruction] at started ⊢
      by_cases start : l.instruction = .directive .start
      · obtain ⟨o, operand, rfl⟩ := resolution.origin start
        have origin : Outcome.origin? (.resolved l) = some o.value := by
          rw [Outcome.origin?, if_pos start, operand]
          rfl
        rw [started, if_pos start]
        simpa only [origin, Option.getD_some] using concat
      · have origin : Outcome.origin? (.resolved l) = none := by
          rw [Outcome.origin?, if_neg start]
        rw [started, if_neg start, resolution.next_eq start, resolution.address]
        simpa only [origin, Outcome.room, Option.getD_none] using concat

/-! ### Programs -/

/-- Settling does not move a line. -/
theorem origin?_settled {symbols : SymbolTable} {pool : LiteralPool} {l : ResolvedLine}
    {column : Option String} (h : Column symbols pool l column) :
    Outcome.origin? (.resolved (settled symbols pool l)) = Outcome.origin? (.resolved l) := by
  by_cases start : l.instruction = .directive .start
  · have unsized : fixedSize? l.instruction = none := by rw [start]; rfl
    rw [settled_of_unsized h unsized]
  · have other : (settled symbols pool l).instruction ≠ .directive .start := by
      rw [settled_frame]
      exact start
    rw [Outcome.origin?, Outcome.origin?, if_neg start, if_neg other]

theorem takes_settled {symbols : SymbolTable} {pool : LiteralPool} {l : ResolvedLine}
    {column : Option String} (h : Column symbols pool l column)
    (takes : Takes l.instruction l.operand l.length) :
    Takes (settled symbols pool l).instruction (settled symbols pool l).operand
      (settled symbols pool l).length := by
  cases sized : fixedSize? l.instruction with
  | none =>
    rw [settled_of_unsized h sized]
    exact takes
  | some size =>
    rw [settled_frame]
    dsimp only
    generalize l.instruction = i at takes sized ⊢
    generalize l.operand = operand at takes
    generalize l.length = room at takes ⊢
    cases takes with
    | resb nonneg => cases sized
    | resw nonneg => cases sized
    | byte => cases sized
    | word => exact .word
    | machine formatted => exact .machine formatted
    | nothing none => exact .nothing none

end Assembler

section Settled

open Assembler

variable {symbols : SymbolTable} {pool : LiteralPool} {outcomes : List Outcome} {counter : Int}
  {start : Option Int}
  (columns : ∀ l, .resolved l ∈ outcomes → ∃ column, Column symbols pool l column)

include columns

/-- What settling keeps of each outcome. -/
theorem settledOutcome_frame (catalog : Catalog) {outcome : Outcome}
    (member : outcome ∈ outcomes) :
    (settledOutcome symbols pool outcome).origin? = outcome.origin? ∧
      (settledOutcome symbols pool outcome).room catalog = outcome.room catalog := by
  cases outcome with
  | resolved l =>
    obtain ⟨column, h⟩ := columns l member
    refine ⟨origin?_settled h, ?_⟩
    rw [settledOutcome, settled_frame]
    rfl
  | skipped => exact ⟨rfl, rfl⟩
  | faulty fault => exact ⟨rfl, rfl⟩

theorem origins_settled :
    (outcomes.map (settledOutcome symbols pool)).filterMap Outcome.origin? =
      outcomes.filterMap Outcome.origin? := by
  rw [List.filterMap_map]
  exact List.filterMap_congr fun o member =>
    (settledOutcome_frame columns .empty member).1

theorem roomSinceOrigin_settled :
    roomSinceOrigin catalog (outcomes.map (settledOutcome symbols pool)) =
      roomSinceOrigin catalog outcomes := by
  induction outcomes using List.reverseRecOn with
  | nil => rfl
  | append_singleton rest o ih =>
    obtain ⟨origin, room⟩ := settledOutcome_frame columns catalog
      (List.mem_append_right rest (List.mem_singleton.2 rfl))
    have earlier := ih fun l member => columns l (List.mem_append_left _ member)
    rw [List.map_append, List.map_singleton, roomSinceOrigin_concat, roomSinceOrigin_concat, origin,
      room, earlier]

theorem counterAfter_settled :
    counterAfter catalog (outcomes.map (settledOutcome symbols pool)) =
      counterAfter catalog outcomes := by
  rw [counterAfter, counterAfter, origins_settled columns, roomSinceOrigin_settled columns]

/-- Settled outcomes lie where the outcomes lay. -/
theorem Laid.settled (h : Laid catalog outcomes counter start) :
    Laid catalog (outcomes.map (settledOutcome symbols pool)) counter start where
  counter := by rw [counterAfter_settled columns, h.counter]
  start := by rw [origins_settled columns, h.start]
  addresses before l later parts := by
    obtain ⟨former, rest, split, rfl, tail⟩ := List.map_eq_append_iff.1 parts
    obtain ⟨outcome, more, rfl, same, _⟩ := List.map_eq_cons_iff.1 tail
    obtain ⟨earlier, rfl, rfl⟩ := settledOutcome_eq_resolved same
    have former_columns : ∀ m, .resolved m ∈ former → ∃ column, Column symbols pool m column :=
      fun m member => columns m (by rw [split]; exact List.mem_append_left _ member)
    rw [counterAfter_settled former_columns, settled_frame]
    exact h.addresses former earlier more split
  rooms l member short := by
    obtain ⟨outcome, recorded, same⟩ := List.mem_map.1 member
    obtain ⟨former, rfl, rfl⟩ := settledOutcome_eq_resolved same
    obtain ⟨column, read⟩ := columns former recorded
    rw [settled_frame] at short
    exact takes_settled read (h.rooms former recorded short)
  started l member instruction := by
    obtain ⟨outcome, recorded, same⟩ := List.mem_map.1 member
    obtain ⟨former, rfl, rfl⟩ := settledOutcome_eq_resolved same
    obtain ⟨column, read⟩ := columns former recorded
    have start : former.instruction = .directive .start := by
      rw [settled_frame] at instruction
      exact instruction
    rw [settled_of_unsized read (by rw [start]; rfl)]
    exact h.started former recorded start
  faulty fault member := by
    obtain ⟨outcome, recorded, same⟩ := List.mem_map.1 member
    cases outcome with
    | faulty former =>
      cases same
      exact h.faulty fault recorded
    | skipped => cases same
    | resolved l => cases same

end Settled

/-- How the lines of a program lie behind each other. -/
structure Program.Layout (p : Program) (catalog : Catalog) : Prop where
  /-- A line is where the lines before it have moved the counter. -/
  addresses : ∀ before l later, p.outcomes = before ++ .resolved l :: later →
    l.address = counterAfter catalog before
  rooms : ∀ l ∈ p.resolved, 0 ≤ l.length ∧ Takes l.instruction l.operand l.length
  started : ∀ l ∈ p.resolved, l.instruction = .directive .start → l.operand.isSome = true
  faulty : ∀ fault, .faulty fault ∈ p.outcomes →
    ∃ s size, Source.statementIn catalog fault.text = some s ∧ fixedSize? s.instruction = some size
  counter : p.counter = counterAfter catalog p.outcomes
  /-- The start address is the operand of the first START. -/
  start : p.start = (p.outcomes.filterMap Outcome.origin?).head?.getD 0
  length : (p.outcomes.filterMap Outcome.origin?).length ≤ 1 →
    0 ≤ p.length ∧ p.length = roomSinceOrigin catalog p.outcomes

theorem Laid.layout {p : Program} {start : Option Int}
    (h : Laid catalog p.outcomes p.counter start) (origin : p.start = start.getD 0)
    (short : ∀ l ∈ p.resolved, l.text.utf8ByteSize < 2147483648) : p.Layout catalog := by
  have rooms : ∀ l ∈ p.resolved, 0 ≤ l.length ∧ Takes l.instruction l.operand l.length := by
    intro l member
    have takes := h.rooms l (Outcome.mem_resolved.1 member) (short l member)
    exact ⟨takes.nonneg, takes⟩
  have nonneg : 0 ≤ roomSinceOrigin catalog p.outcomes := by
    refine roomSinceOrigin_nonneg fun o member => ?_
    cases o with
    | resolved l => exact (rooms l (Outcome.mem_resolved.2 member)).1
    | skipped => exact Int.le_refl 0
    | faulty fault => exact Int.natCast_nonneg _
  refine {
    addresses := h.addresses
    rooms := rooms
    started := fun l member => h.started l (Outcome.mem_resolved.1 member)
    faulty := h.faulty
    counter := h.counter
    start := by rw [origin, h.start]
    length := ?_ }
  intro single
  have length : p.length = roomSinceOrigin catalog p.outcomes := by
    rw [Program.length, origin, h.counter, h.start, counterAfter]
    generalize p.outcomes.filterMap Outcome.origin? = origins at single
    match origins, single with
    | [], _ => simp
    | [first], _ =>
      simp only [List.getLast?_singleton, List.head?_cons]
      omega
  exact ⟨length ▸ nonneg, length⟩

namespace Assembler

variable {seeded : SymbolTable} {policy : Policy} {a : Assembler}

/-- At all times the location counter is an address, no computation of it overflows, and a line moves
it as its instruction says. Over a source the moves add up: each line has the address that the lines
before it lead to, and with at most one START the length is the room of what follows it. -/
theorem run_layout (built : seeded.Built) (formatted : catalog.Formatted) :
    (∀ a, Reachable catalog seeded policy a → Word.isAddress a.counter = true ∧
      ∀ line text, text.utf8ByteSize < 2147483648 →
        a.Advance text (a.step line text).1 (a.step line text).2) ∧
      ∀ lines : List String, (∀ text ∈ lines, text.utf8ByteSize < 2147483648) →
        ((new catalog seeded policy).run lines).Layout catalog := by
  constructor
  · intro a reached
    exact ⟨(reached.wellFormed built).counter, fun line text short =>
      reached.advance built formatted line short⟩
  · intro lines short
    have reached := reachable_run catalog seeded policy lines
    have laid := (reached.laid built formatted).settled fun l member =>
      reached.columns built l (mem_resolved.2 member)
    have placed : ∀ l ∈ ((new catalog seeded policy).run lines).resolved,
        l.text.utf8ByteSize < 2147483648 := by
      intro l member
      obtain ⟨i, found⟩ := List.mem_iff_getElem?.1 (Outcome.mem_resolved.1 member)
      exact short l.text (List.mem_of_getElem? (placed_run built lines found).2)
    rw [run_eq, finish_eq built reached] at placed ⊢
    exact laid.layout rfl placed

/-- Four bytes of an extended instruction, two words, and one more that is stepped over. -/
theorem run_layout_extended :
    let catalog : Catalog := ⟨[.machine "LDA" 0 .three]⟩
    let lines := ["START 4096", "A +LDA B", "B RESW 2", "WORD 1+2+3"]
    let p := (new catalog .empty .recover).run lines
    p.Layout catalog ∧ p.length = 13 := by
  have formatted : Catalog.Formatted ⟨[.machine "LDA" 0 .three]⟩ := by decide
  constructor
  · exact (run_layout .empty formatted).2 ["START 4096", "A +LDA B", "B RESW 2", "WORD 1+2+3"]
      (by decide)
  · rfl

end Assembler

end SicXe.Assembly
