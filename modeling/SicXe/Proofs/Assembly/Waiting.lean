import SicXe.Proofs.Assembly.Definitions
import SicXe.Proofs.Operand.Want

/-!
# Operands that waited to the end

A line whose operand wants for a symbol waits for the last table (`Reachable.wanted`). If the operand
fails there too, the symbol may still be missing; but where it joins two terms, the symbol may have come
with a line further down and shown that something else is wrong with them. So a program can be complete
and hold an operand that no symbol can mend (`undefined_of_late_symbol`), and these are all
the faults that it can have.
-/
namespace SicXe.Assembly

variable {catalog : Catalog} {seeded : SymbolTable} {policy : Policy}

/-- A label that was not known on a line and that a line further down brought. -/
def Program.BroughtBelow (p : Program) (catalog : Catalog) (seeded : SymbolTable) (l : ResolvedLine)
    (label : String) : Prop :=
  ∃ before later, p.resolved = before ++ l :: later ∧ seeded.contains label = false ∧
    (∀ m ∈ before ++ [l], m.carries catalog label = false) ∧
    ∃ m ∈ later, m.carries catalog label = true

/-- The errors of an operand in the table of its program: an undefined symbol, or what is wrong with two
terms of which a line further down brought one. -/
inductive Program.Fails (p : Program) (catalog : Catalog) (seeded : SymbolTable) (l : ResolvedLine)
    (column : String) : Error → Prop where
  | undefined {name : String} (absent : p.symbols.contains name = false) :
      p.Fails catalog seeded l column (.undefinedSymbol name)
  | late {label : String} {e : Error} (brought : p.BroughtBelow catalog seeded l label)
      (named : Operand.NamesTerm (Operand.expressionOf column) label)
      (error : Operand.JointError p.symbols (Operand.expressionOf column) e) :
      p.Fails catalog seeded l column e

/-- On a line that EQU does not define anew, the table after the line is the one its operand saw. -/
theorem Resolution.wanted {counter : Int} {line : Nat} {text : String} {s : Source.Statement}
    {t t' : Tables} {l : ResolvedLine} {next : Int} {column : String}
    (h : Resolution counter line text s t l next t') (deferred : l.deferred = some column) :
    ∃ name pool, Operand.resolve t'.symbols pool column = .error (.undefinedSymbol name) := by
  have stands := h.symbols_of_not_equates
  have read := h.operand
  rw [deferred, ← h.instruction] at read
  generalize l.operand = operand at read
  generalize s.operand = text at read
  generalize t'.pool = pool at read
  cases read with
  | @deferred _ name wants sized =>
    have not_equ : ¬ l.EquatesLabel := by
      rintro ⟨equ, _⟩
      rw [equ] at sized
      cases sized
    obtain ⟨evaluates, _⟩ := evaluate_undefinedSymbol wants
    rw [stands not_equ]
    exact ⟨name, _, (evaluates _ _).symm.trans wants⟩

namespace Assembler

variable {a : Assembler}

/-- A line that waits wanted for a symbol in the table that it left. -/
theorem Reachable.wanted (built : seeded.Built) (reached : Reachable catalog seeded policy a) :
    ∀ before l later column, a.resolved = before ++ l :: later → l.deferred = some column →
      ∃ name pool, Operand.resolve (replay a.catalog seeded (before ++ [l])) pool column =
        .error (.undefinedSymbol name) := by
  refine reached.invariant (motive := fun a => ∀ before l later column,
    a.resolved = before ++ l :: later → l.deferred = some column →
      ∃ name pool, Operand.resolve (replay a.catalog seeded (before ++ [l])) pool column =
        .error (.undefinedSymbol name)) built ?_ ?_
  · intro before l later column parts
    simp [Assembler.new, resolved] at parts
  · intro a line text answer after earlier steps held before l later column parts deferred
    have replays := earlier.replays built
    rcases steps.resolved_or_kept with ⟨s, new, next, read, resolution, same, extended⟩ |
      ⟨same, _, kept⟩
    · rw [same]
      rw [extended] at parts
      rcases split_concat parts with ⟨rfl, rfl⟩ | ⟨more, former⟩
      · have keyed : new.key? a.catalog = s.key? := by
          rw [ResolvedLine.key?, resolution.text, read, Option.bind_some]
        rw [replay_concat, ← replays.symbols, keyed, ← resolution.symbols]
        exact resolution.wanted deferred
      · exact held before l more column former deferred
    · rw [same]
      rw [kept] at parts
      exact held before l later column parts deferred

/-! ### What is left at the end -/

theorem carries_settled (symbols : SymbolTable) (pool : LiteralPool) (l : ResolvedLine)
    (label : String) : (settled symbols pool l).carries catalog label = l.carries catalog label := by
  unfold ResolvedLine.carries
  rw [key?_settled]

/-- A line whose operand fails in the last table is a line of the program, and its error is one of the
two kinds. -/
theorem Reachable.fails_finish (built : seeded.Built) (reached : Reachable catalog seeded policy a)
    (halted : Option Fault) {l : ResolvedLine} (member : l ∈ a.resolved) {column : String}
    {e : Error} (deferred : l.deferred = some column)
    (fails : Operand.resolve a.tables.symbols a.tables.pool column = .error e) :
    l ∈ (a.finish halted).resolved ∧ (a.finish halted).Fails a.catalog seeded l column e := by
  have same := settled_of_fails deferred fails
  have symbols : (a.finish halted).symbols = a.tables.symbols := by
    rw [finish_eq built reached]
  have lines := resolved_finish built reached halted
  have replays := reached.replays built
  have known_at_end := replays.contains
  obtain ⟨before, later, parts⟩ := List.append_of_mem member
  obtain ⟨name, pool, wants⟩ := reached.wanted built before l later column parts deferred
  have grown : a.resolved = (before ++ [l]) ++ later := by
    rw [parts, List.append_assoc, List.singleton_append]
  have keeps : (replay a.catalog seeded (before ++ [l])).Keeps a.tables.symbols := by
    rw [replays.symbols, grown, replay_append seeded (before ++ [l]) later]
    exact keeps_replay _ _
  obtain ⟨unknown, late⟩ := Operand.resolve_of_wanting keeps wants fails
  rw [contains_replay, Bool.or_eq_false_iff, List.any_eq_false] at unknown
  obtain ⟨unseeded, uncarried⟩ := unknown
  refine ⟨by rw [lines, ← same]; exact List.mem_map_of_mem member, ?_⟩
  cases late with
  | undefined absent => exact .undefined (by rw [symbols]; exact absent)
  | joint known named error =>
    rw [known_at_end, unseeded, grown, List.any_append, Bool.false_or, Bool.or_eq_true] at known
    have below : later.any (·.carries a.catalog name) = true := by
      rcases known with above | below
      · obtain ⟨m, above, carries⟩ := List.any_eq_true.1 above
        exact absurd carries (uncarried m above)
      · exact below
    obtain ⟨m, belongs, carries⟩ := List.any_eq_true.1 below
    have brought : (a.finish halted).BroughtBelow a.catalog seeded l name := by
      refine ⟨before.map (settled a.tables.symbols a.tables.pool),
        later.map (settled a.tables.symbols a.tables.pool), ?_, unseeded, ?_, ?_⟩
      · rw [lines, parts, List.map_append, List.map_cons, same]
      · intro m' above
        rw [List.mem_append, List.mem_map, List.mem_singleton] at above
        rcases above with ⟨former, above, rfl⟩ | rfl
        · rw [carries_settled]
          exact Bool.eq_false_iff.2 (uncarried former (List.mem_append_left _ above))
        · exact Bool.eq_false_iff.2 (uncarried m' (by simp))
      · exact ⟨_, List.mem_map_of_mem belongs, by rw [carries_settled]; exact carries⟩
    exact .late brought named (by rw [symbols]; exact error)

/-- An operand column that fails in the tables of its program is one that waited, but for that of an
EQU line on a new label. -/
theorem Reachable.fails_of_evaluate (built : seeded.Built)
    (reached : Reachable catalog seeded policy a) (halted : Option Fault) {l : ResolvedLine}
    (member : l ∈ (a.finish halted).resolved) (other : ¬ l.EquatesLabel) {s : Source.Statement}
    (read : Source.statementIn a.catalog l.text = some s) {column : String}
    (operand : s.operand = some column) {e : Error}
    (fails : evaluate l.instruction a.tables.symbols a.tables.pool column = .error e) :
    l.deferred = some column ∧ (a.finish halted).Fails a.catalog seeded l column e := by
  obtain ⟨former, recorded, rfl⟩ := reached.settled_of_mem built member
  obtain ⟨s', read', same_instruction, recorded_column⟩ := reached.recorded built former recorded
  have frame := settled_frame a.tables.symbols a.tables.pool former
  generalize changed : settled a.tables.symbols a.tables.pool former = l at *
  have same_text : l.text = former.text := by rw [frame]
  have same : l.instruction = former.instruction := by rw [frame]
  rw [same_text, read', Option.some.injEq] at read
  rw [read, operand] at recorded_column
  rw [same] at fails
  cases recorded_column with
  | evaluated value waits_not stands =>
    have unchanged : l = former := by rw [← changed, settled_of_done waits_not]
    rw [unchanged] at other
    rw [stands other] at fails
    cases fails
  | waiting value waits sized evaluates not_constant =>
    rw [evaluates] at fails
    have unchanged : l = former := by rw [← changed, settled_of_fails waits fails]
    rw [unchanged]
    exact ⟨waits, (reached.fails_finish built halted recorded waits fails).2⟩

/-- A fault that is left in a program is an undefined symbol, or an error in two terms that came to
light when a line further down brought a symbol of theirs. No other operand column fails in the tables of
the program, but for that of EQU on a new label, which was evaluated when the label had another value. -/
theorem run_undefined (built : seeded.Built) (lines : List String) :
    let p := (new catalog seeded policy).run lines
    (∀ fault ∈ p.undefined, ∃ l ∈ p.resolved, ∃ column e, l.deferred = some column ∧
      fault = ⟨l.line, l.text, e⟩ ∧ p.Fails catalog seeded l column e) ∧
    ∀ l ∈ p.resolved, ¬ l.EquatesLabel → ∀ s column e,
      Source.statementIn catalog l.text = some s → s.operand = some column →
      evaluate l.instruction p.symbols p.pool column = .error e →
        l.deferred = some column ∧ p.Fails catalog seeded l column e := by
  have reached := reachable_run catalog seeded policy lines
  dsimp only
  rw [run_eq]
  generalize ((new catalog seeded policy).stepAll 1 lines).1 = a at reached ⊢
  generalize ((new catalog seeded policy).stepAll 1 lines).2 = halted
  obtain ⟨rfl, _⟩ := reached.settings built
  constructor
  · intro fault member
    have left_over : fault ∈ a.resolved.filterMap (unsettled? a.tables.symbols a.tables.pool) := by
      rw [finish_eq built reached] at member
      exact member
    obtain ⟨l, recorded, unsettled⟩ := List.mem_filterMap.1 left_over
    obtain ⟨column, e, deferred, fails, rfl⟩ := unsettled?_eq_some unsettled
    obtain ⟨belongs, kind⟩ := reached.fails_finish built halted recorded deferred fails
    exact ⟨l, belongs, column, e, deferred, rfl, kind⟩
  · intro l member other s column e read operand fails
    refine reached.fails_of_evaluate built halted member other read operand ?_
    have tables : (a.finish halted).symbols = a.tables.symbols ∧
        (a.finish halted).pool = a.tables.pool := by
      rw [finish_eq built reached]
      exact ⟨rfl, rfl⟩
    rw [← tables.1, ← tables.2]
    exact fails

/-- An undefined symbol, next to a symbol from further down that has a number out of range behind it. -/
theorem run_undefined_forward :
    let lines := ["WORD C", "WORD B-99999999999", "B WORD 1"]
    let p := (new .empty .empty .abort).run lines
    p.undefined.map Fault.line = [1, 2] ∧ ∀ fault ∈ p.undefined,
      ∃ l ∈ p.resolved, ∃ column e, l.deferred = some column ∧ fault = ⟨l.line, l.text, e⟩ ∧
        p.Fails .empty .empty l column e := by
  constructor
  · rfl
  · exact (run_undefined .empty ["WORD C", "WORD B-99999999999", "B WORD 1"]).1

/-- A number out of range does not halt: the operand waits for the symbol before it, and the program
is complete when the number is found to be the fault. -/
theorem undefined_of_late_symbol :
    let p := (new .empty .empty .abort).run ["WORD B+99999999999", "B WORD 1"]
    p.isComplete = true ∧
      p.undefined = [⟨1, "WORD B+99999999999", .invalidNumber "99999999999"⟩] ∧
      ¬ ∀ fault ∈ p.undefined, ∃ name, fault.error = .undefinedSymbol name ∧
        p.symbols.contains name = false := by
  have undefined : ((new .empty .empty .abort).run ["WORD B+99999999999", "B WORD 1"]).undefined =
      [⟨1, "WORD B+99999999999", .invalidNumber "99999999999"⟩] := rfl
  refine ⟨rfl, undefined, fun all_undefined => ?_⟩
  rw [undefined] at all_undefined
  obtain ⟨name, same, _⟩ := all_undefined _ (List.mem_singleton.2 rfl)
  cases same

end Assembler

end SicXe.Assembly
