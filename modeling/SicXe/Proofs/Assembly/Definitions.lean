import SicXe.Proofs.Assembly.Sequence

/-!
# Where symbols come from

The symbol table of a program is the seeded one with the definitions of the resolved lines replayed on
it, in order (`replay`). Under one key the replay comes to little: what is known keeps its value and is
at most marked (`get?_replay_known`), and what is new is what the first line that carries it says
(`get?_replay_new`). Lines that failed have no part in it.
-/
namespace SicXe.Assembly

/-- The key of the label that a line carries. -/
def ResolvedLine.key? (catalog : Catalog) (l : ResolvedLine) : Option String :=
  (Source.statementIn catalog l.text).bind Source.Statement.key?

/-- Whether a line carries a label in its label column, in any case. -/
def ResolvedLine.carries (catalog : Catalog) (label : String) (l : ResolvedLine) : Bool :=
  match Label.normalize label with
  | .ok key => l.key? catalog = some key
  | .error _ => false

/-- A table after the definitions of lines. -/
def replay (catalog : Catalog) (t : SymbolTable) (ls : List ResolvedLine) : SymbolTable :=
  ls.foldl (fun t l => define t (l.key? catalog) l.definition) t

variable {catalog : Catalog}

theorem replay_cons (t : SymbolTable) (l : ResolvedLine) (ls : List ResolvedLine) :
    replay catalog t (l :: ls) = replay catalog (define t (l.key? catalog) l.definition) ls := rfl

theorem replay_concat (t : SymbolTable) (ls : List ResolvedLine) (l : ResolvedLine) :
    replay catalog t (ls ++ [l]) =
      define (replay catalog t ls) (l.key? catalog) l.definition := by
  simp [replay]

theorem replay_append (t : SymbolTable) (former later : List ResolvedLine) :
    replay catalog t (former ++ later) = replay catalog (replay catalog t former) later :=
  List.foldl_append

theorem keeps_replay (t : SymbolTable) (ls : List ResolvedLine) :
    t.Keeps (replay catalog t ls) := by
  induction ls generalizing t with
  | nil => exact SymbolTable.Keeps.refl t
  | cons l rest ih =>
    rw [replay_cons]
    exact (keeps_define t _ _).trans (ih _)

/-! ### A replay under one key -/

theorem any_eq_filter (holds : ResolvedLine → Bool) (ls : List ResolvedLine) :
    ls.any holds = !(ls.filter holds).isEmpty := by
  induction ls with
  | nil => rfl
  | cons l rest ih => cases here : holds l <;> simp [here, ih]

theorem get?_define_self (t : SymbolTable) (key : String) (definition : Int × Bool) :
    (define t (some key) definition).get? key =
      match t.get? key with
      | some known => some { known with multiplyDefined := true }
      | none => some ⟨key, definition.1, definition.2, false⟩ := by
  unfold define
  cases known : t.get? key with
  | some symbol => simp only [SymbolTable.insert_known known, SymbolTable.get?_set_self]
  | none => simp only [SymbolTable.insert_new known, SymbolTable.get?_set_self]

theorem get?_define_of_ne {t : SymbolTable} {carried : Option String} {key : String}
    (h : carried ≠ some key) (definition : Int × Bool) :
    (define t carried definition).get? key = t.get? key := by
  cases carried with
  | none => rfl
  | some other =>
    have different : key ≠ other := fun same => h (by rw [same])
    rw [define, SymbolTable.get?_insert, if_neg different]

theorem get?_replay_known {t : SymbolTable} {key : String} {symbol : Symbol}
    (known : t.get? key = some symbol) (ls : List ResolvedLine) :
    (replay catalog t ls).get? key = some { symbol with
      multiplyDefined := symbol.multiplyDefined || ls.any (·.key? catalog = some key) } := by
  induction ls generalizing t symbol with
  | nil => simp [replay, known]
  | cons l rest ih =>
    rw [replay_cons]
    by_cases carried : l.key? catalog = some key
    · have marked : (define t (l.key? catalog) l.definition).get? key =
          some { symbol with multiplyDefined := true } := by
        rw [carried, get?_define_self, known]
      rw [ih marked]
      simp [carried]
    · have kept : (define t (l.key? catalog) l.definition).get? key = some symbol := by
        rw [get?_define_of_ne carried, known]
      rw [ih kept]
      simp [carried]

theorem get?_replay_new {t : SymbolTable} {key : String} (new : t.get? key = none)
    (ls : List ResolvedLine) :
    (replay catalog t ls).get? key =
      match ls.filter (·.key? catalog = some key) with
      | [] => none
      | first :: rest => some ⟨key, first.definition.1, first.definition.2, !rest.isEmpty⟩ := by
  induction ls generalizing t with
  | nil => simp [replay, new]
  | cons l rest ih =>
    rw [replay_cons]
    by_cases carried : l.key? catalog = some key
    · have inserted : (define t (l.key? catalog) l.definition).get? key =
          some ⟨key, l.definition.1, l.definition.2, false⟩ := by
        rw [carried, get?_define_self, new]
      rw [get?_replay_known inserted, List.filter_cons_of_pos (by simpa using carried),
        any_eq_filter]
      rfl
    · have absent : (define t (l.key? catalog) l.definition).get? key = none := by
        rw [get?_define_of_ne carried, new]
      rw [ih absent, List.filter_cons_of_neg (by simpa using carried)]

/-- What a replay knows. -/
theorem isSome_get?_replay (t : SymbolTable) (key : String) (ls : List ResolvedLine) :
    ((replay catalog t ls).get? key).isSome =
      ((t.get? key).isSome || ls.any (·.key? catalog = some key)) := by
  cases known : t.get? key with
  | some symbol => rw [get?_replay_known known]; rfl
  | none =>
    rw [get?_replay_new known, any_eq_filter]
    cases ls.filter (·.key? catalog = some key) <;> rfl

/-! ### Replays by assemblers -/

/-- The definition of a line in the words of its columns: an EQU line has an operand and takes its
value and relocatability, any other line takes its address. -/
inductive ResolvedLine.Defines (l : ResolvedLine) : Int × Bool → Prop where
  | equ {o : Operand} (equ : l.instruction = .directive .equ) (operand : l.operand = some o) :
      l.Defines (o.value, o.relocatable)
  | address (other : l.instruction ≠ .directive .equ) : l.Defines (l.address, true)

theorem Resolution.defines {counter : Int} {line : Nat} {text : String} {s : Source.Statement}
    {t t' : Tables} {l : ResolvedLine} {next : Int}
    (h : Resolution counter line text s t l next t') : l.Defines l.definition := by
  unfold ResolvedLine.definition
  by_cases equ : l.instruction = .directive .equ
  · have required := h.following
    rw [← h.instruction, equ] at required
    cases operand : l.operand with
    | none => simp [operand, Assembly.following, Assembly.required, Except.map] at required
    | some o =>
      rw [equ]
      exact .equ equ operand
  · rw [definitionOf_of_ne_equ equ]
    exact .address equ

/-- The symbol that a line records stands under the key of its label. -/
theorem Resolution.label_eq {counter : Int} {line : Nat} {text : String} {s : Source.Statement}
    {t t' : Tables} {l : ResolvedLine} {next : Int}
    (h : Resolution counter line text s t l next t') (wf : t.symbols.WellFormed) :
    l.label.map Symbol.label = s.key? := by
  rw [h.label, h.symbols]
  cases keyed : s.key? with
  | none => rfl
  | some key =>
    rw [Option.bind_some, get?_define_self]
    cases known : t.symbols.get? key with
    | none => rfl
    | some symbol =>
      have same_label : symbol.label = key := wf.labelled known
      simp only [Option.map_some, same_label]

/-- A table is the replay of lines, and a line is marked as a redeclaration if the replay of the lines
before it knows its key. -/
structure Replays (catalog : Catalog) (seeded symbols : SymbolTable) (ls : List ResolvedLine) :
    Prop where
  symbols : symbols = replay catalog seeded ls
  labels : ∀ l ∈ ls, l.label.map Symbol.label = l.key? catalog
  defines : ∀ l ∈ ls, l.Defines l.definition
  redeclared : ∀ before l later, ls = before ++ l :: later →
    l.redeclared = ((l.key? catalog).bind (replay catalog seeded before).get?).isSome

namespace Assembler

variable {seeded : SymbolTable} {policy : Policy} {a : Assembler}

theorem Reachable.replays (built : seeded.Built) (reached : Reachable catalog seeded policy a) :
    Replays a.catalog seeded a.tables.symbols a.resolved := by
  refine reached.invariant
    (motive := fun a => Replays a.catalog seeded a.tables.symbols a.resolved) built ?_ ?_
  · constructor <;> simp [Assembler.new, Assembler.resolved, replay]
  · intro a line text answer after earlier steps held
    rcases steps.resolved_or_kept with ⟨s, new, next, read, resolution, same, extended⟩ |
      ⟨same, tables, kept⟩
    · have keyed : new.key? a.catalog = s.key? := by
        rw [ResolvedLine.key?, resolution.text, read, Option.bind_some]
      constructor
      · rw [resolution.symbols, held.symbols, same, extended, replay_concat, keyed]
      · intro l member
        rw [extended, List.mem_append, List.mem_singleton] at member
        rw [same]
        rcases member with former | rfl
        · exact held.labels l former
        · rw [keyed]
          exact resolution.label_eq (earlier.wellFormed built).symbols
      · intro l member
        rw [extended, List.mem_append, List.mem_singleton] at member
        rcases member with former | rfl
        · exact held.defines l former
        · exact resolution.defines
      · intro before l later parts
        rw [same]
        rw [extended] at parts
        rcases split_concat parts with ⟨rfl, rfl⟩ | ⟨more, former⟩
        · rw [keyed, ← held.symbols]
          exact resolution.redeclared
        · exact held.redeclared before l more former
    · rw [tables, same, kept]
      exact held

/-! ### The table of a program -/

variable {symbols : SymbolTable} {pool : LiteralPool}

/-- Settling a line does not touch its definition. -/
theorem definition_settled {l : ResolvedLine} {column : Option String}
    (h : Column symbols pool l column) : (settled symbols pool l).definition = l.definition := by
  by_cases equ : l.instruction = .directive .equ
  · rw [settled_of_unsized h (by rw [equ]; rfl)]
  · rw [settled_frame]
    unfold ResolvedLine.definition
    rw [definitionOf_of_ne_equ equ, definitionOf_of_ne_equ equ]

theorem defines_settled {l : ResolvedLine} {column : Option String}
    (h : Column symbols pool l column) (defines : l.Defines l.definition) :
    (settled symbols pool l).Defines (settled symbols pool l).definition := by
  by_cases equ : l.instruction = .directive .equ
  · rw [settled_of_unsized h (by rw [equ]; rfl)]
    exact defines
  · rw [settled_frame]
    unfold ResolvedLine.definition
    rw [definitionOf_of_ne_equ equ]
    exact .address equ

theorem key?_settled (symbols : SymbolTable) (pool : LiteralPool) (l : ResolvedLine) :
    (settled symbols pool l).key? catalog = l.key? catalog := by
  rw [settled_frame]
  rfl

end Assembler

/-- Lines that keep their keys and definitions are replayed to the same end. -/
theorem replay_map {f : ResolvedLine → ResolvedLine} {ls : List ResolvedLine}
    (keys : ∀ l ∈ ls, (f l).key? catalog = l.key? catalog)
    (definitions : ∀ l ∈ ls, (f l).definition = l.definition) (t : SymbolTable) :
    replay catalog t (ls.map f) = replay catalog t ls := by
  induction ls generalizing t with
  | nil => rfl
  | cons l rest ih =>
    rw [List.map_cons, replay_cons, replay_cons, keys l (List.mem_cons_self ..),
      definitions l (List.mem_cons_self ..)]
    exact ih (fun m member => keys m (List.mem_cons_of_mem _ member))
      (fun m member => definitions m (List.mem_cons_of_mem _ member)) _

theorem Assembler.Reachable.replays_finish {seeded : SymbolTable} {policy : Policy}
    {a : Assembler} (built : seeded.Built) (reached : Reachable catalog seeded policy a)
    (halted : Option Fault) :
    Replays a.catalog seeded (a.finish halted).symbols (a.finish halted).resolved := by
  have held := reached.replays built
  have columns := reached.columns built
  have definitions : ∀ l ∈ a.resolved,
      (settled a.tables.symbols a.tables.pool l).definition = l.definition := by
    intro l member
    obtain ⟨column, h⟩ := columns l member
    exact definition_settled h
  rw [resolved_finish built reached, finish_eq built reached]
  constructor
  · rw [replay_map (fun l _ => key?_settled _ _ l) definitions]
    exact held.symbols
  · intro l member
    obtain ⟨former, recorded, rfl⟩ := List.mem_map.1 member
    rw [key?_settled, settled_frame]
    exact held.labels former recorded
  · intro l member
    obtain ⟨former, recorded, rfl⟩ := List.mem_map.1 member
    obtain ⟨column, h⟩ := columns former recorded
    exact defines_settled h (held.defines former recorded)
  · intro before l later split
    obtain ⟨former, rest, parts, rfl, tail⟩ := List.map_eq_append_iff.1 split
    obtain ⟨first, more, rfl, rfl, _⟩ := List.map_eq_cons_iff.1 tail
    have before_definitions : ∀ m ∈ former,
        (settled a.tables.symbols a.tables.pool m).definition = m.definition := fun m member =>
      definitions m (by rw [parts]; exact List.mem_append_left _ member)
    rw [replay_map (fun l _ => key?_settled _ _ l) before_definitions, key?_settled, settled_frame]
    exact held.redeclared former first more parts

/-! ### What a replay says of a label -/

section Labels

variable {seeded symbols : SymbolTable} {ls : List ResolvedLine} {label key : String}

theorem lookup_of_normal (normal : Label.normalize label = .ok key) (t : SymbolTable) :
    t.lookup label = t.get? key := by
  rw [SymbolTable.lookup, normal]

theorem carries_of_normal (normal : Label.normalize label = .ok key) :
    ResolvedLine.carries catalog label = fun l => decide (l.key? catalog = some key) := by
  funext l
  rw [ResolvedLine.carries, normal]

theorem normalize_of_carries {l : ResolvedLine} (h : l.carries catalog label = true) :
    ∃ key, Label.normalize label = .ok key ∧ l.key? catalog = some key := by
  unfold ResolvedLine.carries at h
  cases normal : Label.normalize label with
  | error e => simp [normal] at h
  | ok key => exact ⟨key, rfl, by simpa [normal] using h⟩

theorem carries_of_key {l : ResolvedLine} (keyed : l.key? catalog = some key) :
    l.carries catalog key = true ∧ Label.normalize key = .ok key := by
  obtain ⟨s, _, defined⟩ := Option.bind_eq_some_iff.1 keyed
  have normal := normalize_key defined
  rw [carries_of_normal normal]
  exact ⟨decide_eq_true keyed, normal⟩

theorem isSome_replay_of_normal (normal : Label.normalize label = .ok key) (t : SymbolTable)
    (ls : List ResolvedLine) :
    ((replay catalog t ls).get? key).isSome =
      (t.contains label || ls.any (·.carries catalog label)) := by
  rw [isSome_get?_replay, SymbolTable.contains, lookup_of_normal normal, carries_of_normal normal]

/-- What a replay knows in any case of its letters. -/
theorem contains_replay (t : SymbolTable) (ls : List ResolvedLine) (label : String) :
    (replay catalog t ls).contains label =
      (t.contains label || ls.any (·.carries catalog label)) := by
  cases normal : Label.normalize label with
  | error e => simp [SymbolTable.contains, SymbolTable.lookup, ResolvedLine.carries, normal]
  | ok key =>
    rw [← isSome_replay_of_normal normal, SymbolTable.contains, lookup_of_normal normal]

/-- A label is known if it was seeded or a line carries it. -/
theorem Replays.contains (h : Replays catalog seeded symbols ls) (label : String) :
    symbols.contains label = (seeded.contains label || ls.any (·.carries catalog label)) := by
  rw [h.symbols, contains_replay]

/-- What was seeded stays, and is marked if a line carries it. -/
theorem Replays.lookup_seeded (h : Replays catalog seeded symbols ls) {symbol : Symbol}
    (known : seeded.lookup label = some symbol) :
    symbols.lookup label = some { symbol with
      multiplyDefined := symbol.multiplyDefined || ls.any (·.carries catalog label) } := by
  cases normal : Label.normalize label with
  | error e => simp [SymbolTable.lookup, normal] at known
  | ok key =>
    rw [lookup_of_normal normal] at known ⊢
    rw [carries_of_normal normal, h.symbols, get?_replay_known known]

/-- A label that was not seeded has the definition of the first line that carries it, and is marked if
there are others. -/
theorem Replays.lookup_carried (h : Replays catalog seeded symbols ls)
    (new : seeded.contains label = false) {first : ResolvedLine} {rest : List ResolvedLine}
    (carriers : ls.filter (·.carries catalog label) = first :: rest) :
    ∃ key, Label.normalize label = .ok key ∧ symbols.lookup label =
      some ⟨key, first.definition.1, first.definition.2, !rest.isEmpty⟩ := by
  have member : first ∈ ls.filter (·.carries catalog label) := by simp [carriers]
  obtain ⟨key, normal, _⟩ := normalize_of_carries (List.mem_filter.1 member).2
  rw [SymbolTable.contains, lookup_of_normal normal, Option.isSome_eq_false_iff,
    Option.isNone_iff_eq_none] at new
  rw [carries_of_normal normal] at carriers
  exact ⟨key, normal, by rw [lookup_of_normal normal, h.symbols, get?_replay_new new, carriers]⟩

/-- A line is marked as a redeclaration if its label was seeded or an earlier line carries it. -/
theorem Replays.redeclared_iff (h : Replays catalog seeded symbols ls)
    {before later : List ResolvedLine} {l : ResolvedLine} (parts : ls = before ++ l :: later) :
    l.redeclared = true ↔ ∃ label, l.carries catalog label = true ∧
      (seeded.contains label = true ∨ before.any (·.carries catalog label) = true) := by
  rw [h.redeclared before l later parts]
  constructor
  · intro known
    cases keyed : l.key? catalog with
    | none => simp [keyed] at known
    | some key =>
      obtain ⟨carries, normal⟩ := carries_of_key keyed
      rw [keyed, Option.bind_some, isSome_replay_of_normal normal, Bool.or_eq_true] at known
      exact ⟨key, carries, known⟩
  · rintro ⟨label, carries, earlier⟩
    obtain ⟨key, normal, keyed⟩ := normalize_of_carries carries
    rw [keyed, Option.bind_some, isSome_replay_of_normal normal, Bool.or_eq_true]
    exact earlier

/-- Of the lines that carry a new label the first is the definition and all others are marked as
redeclarations. -/
theorem Replays.redeclared_carriers (h : Replays catalog seeded symbols ls)
    (new : seeded.contains label = false) {first : ResolvedLine} {rest : List ResolvedLine}
    (carriers : ls.filter (·.carries catalog label) = first :: rest) :
    first.redeclared = false ∧ ∀ l ∈ rest, l.redeclared = true := by
  obtain ⟨before, later, parts, none_before, carries, others⟩ := List.filter_eq_cons_iff.1 carriers
  obtain ⟨key, normal, keyed⟩ := normalize_of_carries carries
  constructor
  · have unmarked : before.any (·.carries catalog label) = false := by
      rw [List.any_eq_false]
      exact none_before
    rw [h.redeclared before first later parts, keyed, Option.bind_some,
      isSome_replay_of_normal normal, new, unmarked]
    rfl
  · intro l member
    rw [← others] at member
    obtain ⟨belongs, carries_too⟩ := List.mem_filter.1 member
    obtain ⟨between, after, rfl⟩ := List.append_of_mem belongs
    have apart : ls = (before ++ first :: between) ++ l :: after := by
      rw [parts, List.append_assoc, List.cons_append]
    refine (h.redeclared_iff apart).2 ⟨label, carries_too, Or.inr ?_⟩
    rw [List.any_append, List.any_cons, carries, Bool.true_or, Bool.or_true]

/-- A label is marked if it was marked in the seed or is declared twice, where the seed and each line
that carries it count as declarations. -/
theorem Replays.marked_iff (h : Replays catalog seeded symbols ls) {symbol : Symbol}
    (known : symbols.lookup label = some symbol) :
    symbol.multiplyDefined = true ↔
      (∃ former, seeded.lookup label = some former ∧ former.multiplyDefined = true) ∨
        2 ≤ (seeded.contains label).toNat + ls.countP (·.carries catalog label) := by
  cases held : seeded.lookup label with
  | some former =>
    rw [h.lookup_seeded held] at known
    cases known
    have counted : (seeded.contains label).toNat = 1 := by
      rw [SymbolTable.contains, held]
      rfl
    have some_carrier : 2 ≤ 1 + ls.countP (·.carries catalog label) ↔
        ls.any (·.carries catalog label) = true := by
      have positive : 0 < ls.countP (·.carries catalog label) ↔
          ∃ l ∈ ls, l.carries catalog label = true := List.countP_pos_iff
      rw [List.any_eq_true, ← positive]
      omega
    rw [counted, some_carrier, Bool.or_eq_true]
    simp
  | none =>
    have new : seeded.contains label = false := by
      rw [SymbolTable.contains, held]
      rfl
    rw [new, List.countP_eq_length_filter]
    cases carriers : ls.filter (·.carries catalog label) with
    | nil =>
      have absent := h.contains label
      rw [new, any_eq_filter, carriers, SymbolTable.contains, known] at absent
      cases absent
    | cons first rest =>
      obtain ⟨key, _, found⟩ := h.lookup_carried new carriers
      rw [found] at known
      cases known
      cases rest <;> simp

end Labels

/-! ### Programs -/

/-- Where the symbols of a program come from, and what its lines say of that. -/
structure Program.Definitions (p : Program) (catalog : Catalog) (seeded : SymbolTable) : Prop where
  /-- The lines that failed, stepped over or halting, are no part of it. -/
  replayed : p.symbols = replay catalog seeded p.resolved
  /-- The symbol that a line records is the one of its label column. -/
  labels : ∀ l ∈ p.resolved, l.label.map Symbol.label = l.key? catalog
  contains : ∀ label, p.symbols.contains label = true ↔
    seeded.contains label = true ∨ ∃ l ∈ p.resolved, l.carries catalog label = true
  /-- What was seeded keeps its value. -/
  kept : ∀ label symbol, seeded.lookup label = some symbol →
    ∃ marked, p.symbols.lookup label = some { symbol with multiplyDefined := marked }
  /-- The first line that carries a new label defines it, and the others are marked. -/
  first : ∀ label first rest, seeded.contains label = false →
    p.resolved.filter (·.carries catalog label) = first :: rest →
      (∃ symbol, p.symbols.lookup label = some symbol ∧
        Label.normalize label = .ok symbol.label ∧
        first.Defines (symbol.value, symbol.relocatable)) ∧
      first.redeclared = false ∧ ∀ l ∈ rest, l.redeclared = true
  marked : ∀ label symbol, p.symbols.lookup label = some symbol →
    (symbol.multiplyDefined = true ↔
      (∃ former, seeded.lookup label = some former ∧ former.multiplyDefined = true) ∨
        2 ≤ (seeded.contains label).toNat + p.resolved.countP (·.carries catalog label))
  redeclared : ∀ before l later, p.resolved = before ++ l :: later →
    (l.redeclared = true ↔ ∃ label, l.carries catalog label = true ∧
      (seeded.contains label = true ∨ ∃ m ∈ before, m.carries catalog label = true))

theorem Replays.definitions {p : Program} {seeded : SymbolTable}
    (h : Replays catalog seeded p.symbols p.resolved) : p.Definitions catalog seeded where
  replayed := h.symbols
  labels := h.labels
  contains label := by rw [h.contains label, Bool.or_eq_true, List.any_eq_true]
  kept label symbol known := ⟨_, h.lookup_seeded known⟩
  first label first rest new carriers := by
    have member : first ∈ p.resolved.filter (·.carries catalog label) := by simp [carriers]
    obtain ⟨key, normal, found⟩ := h.lookup_carried new carriers
    have defines := h.defines first (List.mem_filter.1 member).1
    exact ⟨⟨_, found, normal, defines⟩, h.redeclared_carriers new carriers⟩
  marked label symbol known := h.marked_iff known
  redeclared before l later parts := by
    rw [h.redeclared_iff parts]
    simp only [List.any_eq_true]

namespace Assembler

variable {seeded : SymbolTable} {policy : Policy} {a : Assembler}

/-- Further lines take no definition back. -/
theorem keeps_stepAll_append (wf : a.WellFormed) (number : Nat) (earlier later : List String) :
    (a.stepAll number earlier).1.tables.symbols.Keeps
      (a.stepAll number (earlier ++ later)).1.tables.symbols := by
  have first_wf := wf.stepAll number earlier
  rcases first : a.stepAll number earlier with ⟨b, halted⟩
  rw [first] at first_wf
  cases halted with
  | none =>
    rw [stepAll_append_of_done first]
    exact keeps_stepAll first_wf _ later
  | some fault =>
    rw [stepAll_append_of_halted first]
    exact SymbolTable.Keeps.refl _

/-- The symbol table of a program is its seed and what the first line that carries a label says of it;
what stood there after some line of the source stands there at the end. -/
theorem run_definitions (built : seeded.Built) (lines : List String) :
    ((new catalog seeded policy).run lines).Definitions catalog seeded ∧
      ∀ earlier later, lines = earlier ++ later →
        ((new catalog seeded policy).stepAll 1 earlier).1.tables.symbols.Keeps
          ((new catalog seeded policy).run lines).symbols := by
  have reached := reachable_run catalog seeded policy lines
  have replays := reached.replays_finish built ((new catalog seeded policy).stepAll 1 lines).2
  rw [(reached.settings built).1] at replays
  refine ⟨replays.definitions, ?_⟩
  rintro earlier later rfl
  rw [run_eq, finish_eq built reached]
  exact keeps_stepAll_append (wellFormed_new catalog built policy) 1 earlier later

/-- A seeded label that is declared again, an EQU label in two cases, and a line that is stepped
over. -/
theorem run_definitions_seeded :
    let seeded := (SymbolTable.empty.insert ⟨"X", 7, false, false⟩).2
    let p := (new .empty seeded .recover).run ["x WORD 1", "A EQU 5", "B WORD 1+2+3", "a WORD 2"]
    p.Definitions .empty seeded ∧
      p.symbols.toList = [⟨"A", 5, false, true⟩, ⟨"X", 7, false, true⟩] := by
  have built : (SymbolTable.empty.insert ⟨"X", 7, false, false⟩).2.Built :=
    .seed .empty (show SymbolTable.empty.seed "7 X false" = .ok (.inserted _, _) from rfl)
  constructor
  · exact (run_definitions built ["x WORD 1", "A EQU 5", "B WORD 1+2+3", "a WORD 2"]).1
  · rfl

end Assembler

end SicXe.Assembly
