import SicXe.Proofs.Assembly.Evaluate

/-!
# What an attempt at a line does

A successful attempt is described part by part (`Resolution`): what became of the label, how the
operand was read, where the location counter went. Of a failed attempt it is enough to know what it
can have touched (`Touches`): the entry of its own label and the end of the pool. That much a savepoint
takes back (`restore_of_touches`).
-/
namespace SicXe

/-- The key under which a statement defines a symbol: its label in normal form. -/
def Source.Statement.key? (s : Source.Statement) : Option String :=
  s.label.bind fun label => (Label.normalize label).toOption

theorem Source.Statement.key?_of_none {s : Source.Statement} (h : s.label = none) :
    s.key? = none := by
  rw [key?, h]
  rfl

theorem Source.Statement.key?_of_some {s : Source.Statement} {label : String}
    (h : s.label = some label) : s.key? = (Label.normalize label).toOption := by
  rw [key?, h]
  rfl

namespace Assembly

/-! ### Definitions by lines -/

/-- A table after the definition of a label, if there is one. -/
def define (t : SymbolTable) (key : Option String) (definition : Int × Bool) : SymbolTable :=
  match key with
  | none => t
  | some key => (t.insert ⟨key, definition.1, definition.2, false⟩).2

/-- The value and relocatability that a label gets: those of the operand on an EQU line, else the
address of the line. -/
def definitionOf (i : Instruction) (address : Int) (operand : Option Operand) : Int × Bool :=
  match i, operand with
  | .directive .equ, some o => (o.value, o.relocatable)
  | _, _ => (address, true)

def ResolvedLine.definition (l : ResolvedLine) : Int × Bool :=
  definitionOf l.instruction l.address l.operand

theorem definitionOf_of_ne_equ {i : Instruction} (h : i ≠ .directive .equ) (address : Int)
    (operand : Option Operand) : definitionOf i address operand = (address, true) := by
  unfold definitionOf
  split
  · exact absurd rfl h
  · rfl

theorem keeps_define (t : SymbolTable) (key : Option String) (definition : Int × Bool) :
    t.Keeps (define t key definition) := by
  cases key with
  | none => exact SymbolTable.Keeps.refl t
  | some key => exact SymbolTable.keeps_insert t _

theorem normalize_key {s : Source.Statement} {key : String} (h : s.key? = some key) :
    Label.normalize key = .ok key := by
  obtain ⟨label, _, valid⟩ := Option.bind_eq_some_iff.1 h
  exact Label.normalize_of_normalize (eq_ok_of_toOption valid)

theorem wellFormed_define {t : SymbolTable} (wf : t.WellFormed) {s : Source.Statement}
    {definition : Int × Bool} (fits : Word.fits definition.1 = true) :
    (define t s.key? definition).WellFormed := by
  cases known : s.key? with
  | none => exact wf
  | some key => exact wf.insert _ (normalize_key known) fits

theorem equate_none (i : Instruction) (operand : Option Operand) (t : SymbolTable) :
    equate i none operand t = t := by
  cases i with
  | machine mnemonic opcode format => rfl
  | directive d => cases d <;> rfl

theorem equate_existing (i : Instruction) (symbol : Symbol) (operand : Option Operand)
    (t : SymbolTable) : equate i (some (.existing symbol)) operand t = t := by
  cases i with
  | machine mnemonic opcode format => rfl
  | directive d => cases d <;> rfl

/-- EQU changes the definition that was just made, and no other. -/
theorem equate_inserted {t : SymbolTable} {key : String} (normal : Label.normalize key = .ok key)
    (i : Instruction) (address : Int) (operand : Option Operand) :
    equate i (some (.inserted ⟨key, address, true, false⟩)) operand
        (t.set key ⟨key, address, true, false⟩) =
      t.set key ⟨key, (definitionOf i address operand).1, (definitionOf i address operand).2,
        false⟩ := by
  by_cases equ : i = .directive .equ
  · subst equ
    cases operand with
    | none => rfl
    | some o => simp [equate, definitionOf, SymbolTable.assign, normal]
  · rw [definitionOf_of_ne_equ equ]
    unfold equate
    split
    · exact absurd rfl equ
    · rfl

theorem equate_insert (t : SymbolTable) {key : String} (normal : Label.normalize key = .ok key)
    (i : Instruction) (address : Int) (operand : Option Operand) :
    equate i (some (t.insert ⟨key, address, true, false⟩).1) operand
        (t.insert ⟨key, address, true, false⟩).2 =
      define t (some key) (definitionOf i address operand) := by
  cases known : t.get? key with
  | some symbol => simp only [define, SymbolTable.insert_known known, equate_existing]
  | none => simp only [define, SymbolTable.insert_new known, equate_inserted normal]

/-- What becomes of the label of a line. -/
theorem declareLabel_ok {counter : Int} {s : Source.Statement} {t t' : Tables}
    {declaration : Option Declaration}
    (h : (declareLabel counter s.label).run t = .ok declaration t') :
    (s.label = none ∧ s.key? = none ∧ declaration = none ∧ t' = t) ∨
      ∃ key, s.label.isSome = true ∧ s.key? = some key ∧
        declaration = some (t.symbols.insert ⟨key, counter, true, false⟩).1 ∧
        t' = { t with symbols := (t.symbols.insert ⟨key, counter, true, false⟩).2 } := by
  rw [declareLabel_run] at h
  cases labelled : s.label with
  | none =>
    rw [labelled] at h
    cases h
    exact Or.inl ⟨rfl, Source.Statement.key?_of_none labelled, rfl, rfl⟩
  | some label =>
    rw [labelled] at h
    dsimp only at h
    rw [SymbolTable.declare_eq] at h
    cases normal : Label.normalize label with
    | error e => simp [normal] at h
    | ok key =>
      rw [normal] at h
      cases h
      refine Or.inr ⟨key, rfl, ?_, rfl, rfl⟩
      rw [Source.Statement.key?_of_some labelled, normal]
      rfl

/-- The tables after the label, and after what EQU makes of it. -/
theorem declareLabel_define {counter : Int} {s : Source.Statement} {t t' : Tables}
    {declaration : Option Declaration}
    (h : (declareLabel counter s.label).run t = .ok declaration t') :
    t'.symbols = define t.symbols s.key? (counter, true) ∧ t'.pool = t.pool ∧
      ∀ operand, equate s.instruction declaration operand t'.symbols =
        define t.symbols s.key? (definitionOf s.instruction counter operand) := by
  rcases declareLabel_ok h with ⟨_, no_key, rfl, rfl⟩ | ⟨key, _, keyed, rfl, rfl⟩
  · rw [no_key]
    exact ⟨rfl, rfl, fun operand => equate_none s.instruction operand t'.symbols⟩
  · rw [keyed]
    exact ⟨rfl, rfl, fun operand =>
      equate_insert t.symbols (normalize_key keyed) s.instruction counter operand⟩

/-! ### Attempts that succeed -/

/-- The ways in which an operand column is read: there is none, it has a value, or it waits for a
symbol. -/
inductive OperandRead (i : Instruction) (symbols : SymbolTable) (pool : LiteralPool) :
    Option String → Option Operand → Option String → LiteralPool → Prop where
  | absent : OperandRead i symbols pool none none none pool
  | evaluated {expression : String} {operand : Operand} {pool' : LiteralPool}
      (value : evaluate i symbols pool expression = .ok (operand, pool')) :
      OperandRead i symbols pool (some expression) (some operand) none pool'
  | deferred {expression name : String}
      (wants : evaluate i symbols pool expression = .error (.undefinedSymbol name))
      (sized : (fixedSize? i).isSome = true) :
      OperandRead i symbols pool (some expression) none (some expression) pool

theorem readOperand_ok {i : Instruction} {column : Option String} {t t' : Tables}
    {result : Option Operand × Option String}
    (h : (readOperand i column).run t = .ok result t') :
    OperandRead i t.symbols t.pool column result.1 result.2 t'.pool ∧ t'.symbols = t.symbols := by
  rw [readOperand_run] at h
  cases column with
  | none =>
    cases h
    exact ⟨.absent, rfl⟩
  | some expression =>
    dsimp only at h
    cases read : evaluate i t.symbols t.pool expression with
    | ok value =>
      rw [read] at h
      cases h
      exact ⟨.evaluated read, rfl⟩
    | error e =>
      rw [read] at h
      dsimp only at h
      split at h
      · rename_i waits
        rw [Bool.and_eq_true] at waits
        obtain ⟨name, rfl⟩ := (isUndefinedSymbol_iff e).1 waits.1
        cases h
        exact ⟨.deferred read waits.2, rfl⟩
      · cases h

theorem OperandRead.registersTo {i : Instruction} {symbols : SymbolTable}
    {pool pool' : LiteralPool} {column deferred : Option String} {operand : Option Operand}
    (h : OperandRead i symbols pool column operand deferred pool') : pool.RegistersTo pool' := by
  cases h with
  | absent => exact Or.inl rfl
  | evaluated value => exact registersTo_of_evaluate value
  | deferred => exact Or.inl rfl

/-- An operand that is there is the value of the column. -/
theorem OperandRead.value {i : Instruction} {symbols : SymbolTable} {pool pool' : LiteralPool}
    {column deferred : Option String} {o : Operand}
    (h : OperandRead i symbols pool column (some o) deferred pool') :
    ∃ expression, column = some expression ∧ deferred = none ∧
      evaluate i symbols pool expression = .ok (o, pool') := by
  cases h with
  | evaluated value => exact ⟨_, rfl, rfl, value⟩

/-- All that a successful attempt has to do with: the statement `s` of a line, the tables before and
after it, the resolved line and the location counter after it. -/
structure Resolution (counter : Int) (line : Nat) (text : String) (s : Source.Statement)
    (t : Tables) (l : ResolvedLine) (next : Int) (t' : Tables) : Prop where
  line : l.line = line
  text : l.text = text
  instruction : l.instruction = s.instruction
  address : l.address = counter
  length : l.length = lengthOf s.instruction counter next
  /-- A label that is no label makes the attempt fail. -/
  labelled : s.label.isSome = s.key?.isSome
  redeclared : l.redeclared = (s.key?.bind t.symbols.get?).isSome
  label : l.label = s.key?.bind t'.symbols.get?
  operand : OperandRead s.instruction (define t.symbols s.key? (counter, true)) t.pool s.operand
    l.operand l.deferred t'.pool
  following : following s.instruction counter l.operand = .ok next
  isAddress : Word.isAddress next = true
  symbols : t'.symbols = define t.symbols s.key? l.definition

theorem toAddress_ok {n next : Int} (h : toAddress n = .ok next) :
    next = n ∧ Word.isAddress n = true := by
  unfold toAddress at h
  split at h
  · rename_i address
    cases h
    exact ⟨rfl, address⟩
  · cases h

theorem isExisting_insert (t : SymbolTable) (symbol : Symbol) :
    (t.insert symbol).1.isExisting = (t.get? symbol.label).isSome := by
  unfold SymbolTable.insert
  cases t.get? symbol.label <;> rfl

theorem label_insert {t : SymbolTable} (wf : t.WellFormed) (symbol : Symbol) :
    (t.insert symbol).1.symbol.label = symbol.label := by
  unfold SymbolTable.insert
  cases known : t.get? symbol.label with
  | none => rfl
  | some held =>
    have same_label : held.label = symbol.label := wf.labelled known
    exact same_label

/-- What the declaration of a label says: whether it was known, and under which key it now stands. -/
theorem declaration_of_label {counter : Int} {s : Source.Statement} {t t' : Tables}
    {declaration : Option Declaration} (wf : t.symbols.WellFormed)
    (h : (declareLabel counter s.label).run t = .ok declaration t') :
    s.label.isSome = s.key?.isSome ∧
      (declaration.map Declaration.isExisting).getD false =
        (s.key?.bind t.symbols.get?).isSome ∧
      ∀ later : SymbolTable,
        (declaration.bind fun d => later.lookup d.symbol.label) = s.key?.bind later.get? := by
  rcases declareLabel_ok h with ⟨unlabelled, no_key, rfl, rfl⟩ | ⟨key, labelled, keyed, rfl, rfl⟩
  · rw [unlabelled, no_key]
    exact ⟨rfl, rfl, fun _ => rfl⟩
  · rw [labelled, keyed]
    refine ⟨rfl, isExisting_insert _ _, fun later => ?_⟩
    simp only [Option.bind_some, label_insert wf, SymbolTable.lookup, normalize_key keyed]

theorem resolveLine_ok {counter : Int} {line : Nat} {text : String} {s : Source.Statement}
    {t t' : Tables} {l : ResolvedLine} {next : Int} (wf : t.symbols.WellFormed)
    (h : (resolveLine counter line text s).run t = .ok (l, next) t') :
    Resolution counter line text s t l next t' := by
  rw [resolveLine_run] at h
  cases declared : (declareLabel counter s.label).run t with
  | error e t₁ => simp [declared] at h
  | ok declaration t₁ =>
    cases read : (readOperand s.instruction s.operand).run t₁ with
    | error e t₂ => simp [declared, read] at h
    | ok operand t₂ =>
      cases moved : following s.instruction counter operand.1 with
      | error e => simp [declared, read, moved] at h
      | ok there =>
        cases place : toAddress there with
        | error e => simp [declared, read, moved, place] at h
        | ok address =>
          simp only [declared, read, moved, place] at h
          cases h
          obtain ⟨rfl, isAddress⟩ := toAddress_ok place
          obtain ⟨column, kept⟩ := readOperand_ok read
          obtain ⟨labelled, same_pool, equated⟩ := declareLabel_define declared
          rw [labelled, same_pool] at column
          have defined := equated operand.1
          rw [← kept] at defined
          obtain ⟨named, marked, looked_up⟩ := declaration_of_label wf declared
          exact {
            line := rfl
            text := rfl
            instruction := rfl
            address := rfl
            length := rfl
            labelled := named
            redeclared := marked
            label := looked_up _
            operand := column
            following := moved
            isAddress := isAddress
            symbols := defined }

/-- What a line defines is an address or the value of an operand, and so one of 32 bits. -/
theorem Resolution.definition_fits {counter : Int} {line : Nat} {text : String}
    {s : Source.Statement} {t t' : Tables} {l : ResolvedLine} {next : Int}
    (resolution : Resolution counter line text s t l next t') (symbols : t.symbols.WellFormed)
    (pool : t.pool.WellFormed) (address : Word.isAddress counter = true) :
    Word.fits l.definition.1 = true := by
  have counter_fits := Word.fits_of_isAddress address
  have operand := resolution.operand
  rw [ResolvedLine.definition, resolution.instruction, resolution.address]
  unfold definitionOf
  split
  · rename_i o present
    rw [present] at operand
    obtain ⟨_, _, _, value⟩ := operand.value
    exact fits_of_evaluate (wellFormed_define symbols counter_fits) pool value
  · exact counter_fits

/-! ### Attempts that fail -/

/-- What a line with this key can do to the tables, whether or not it succeeds. -/
structure Touches (key : Option String) (t t' : Tables) : Prop where
  symbols : t'.symbols = t.symbols ∨ ∃ definition, t'.symbols = define t.symbols key definition
  pool : t.pool.Grows t'.pool

theorem declareLabel_error {counter : Int} {label : Option String} {t t' : Tables} {e : Error}
    (h : (declareLabel counter label).run t = .error e t') : t' = t := by
  rw [declareLabel_run] at h
  split at h
  · cases h
  · split at h
    · cases h
      rfl
    · cases h

theorem readOperand_error {i : Instruction} {column : Option String} {t t' : Tables} {e : Error}
    (h : (readOperand i column).run t = .error e t') : t' = t := by
  rw [readOperand_run] at h
  split at h
  · cases h
  · split at h
    · cases h
    · split at h
      · cases h
      · cases h
        rfl

/-- A failed attempt stopped after some of its parts, none of which reaches further than this. -/
theorem resolveLine_error {counter : Int} {line : Nat} {text : String} {s : Source.Statement}
    {t t' : Tables} {e : Error} (h : (resolveLine counter line text s).run t = .error e t') :
    Touches s.key? t t' := by
  rw [resolveLine_run] at h
  cases declared : (declareLabel counter s.label).run t with
  | error e t₁ =>
    simp only [declared] at h
    cases h
    rw [declareLabel_error declared]
    exact ⟨Or.inl rfl, LiteralPool.Grows.refl t.pool⟩
  | ok declaration t₁ =>
    obtain ⟨labelled, same_pool, equated⟩ := declareLabel_define declared
    cases read : (readOperand s.instruction s.operand).run t₁ with
    | error e t₂ =>
      simp only [declared, read] at h
      cases h
      rw [readOperand_error read]
      exact ⟨Or.inr ⟨_, labelled⟩, same_pool ▸ LiteralPool.Grows.refl t₁.pool⟩
    | ok operand t₂ =>
      obtain ⟨column, kept⟩ := readOperand_ok read
      have grown := column.registersTo.grows
      rw [same_pool] at grown
      cases moved : following s.instruction counter operand.1 with
      | error e =>
        simp only [declared, read, moved] at h
        cases h
        exact ⟨Or.inr ⟨_, kept.trans labelled⟩, grown⟩
      | ok there =>
        cases place : toAddress there with
        | error e =>
          simp only [declared, read, moved, place] at h
          cases h
          rw [kept, equated]
          exact ⟨Or.inr ⟨_, rfl⟩, grown⟩
        | ok address => simp [declared, read, moved, place] at h

/-- Taking back a definition: the entry of the label is as it was, or there is none again. -/
theorem restore_define {t : SymbolTable} (wf : t.WellFormed) {s : Source.Statement}
    {label : String} (labelled : s.label = some label) (definition : Int × Bool) :
    (define t s.key? definition).restore label (t.lookup label) = t := by
  have ascending : SymbolTable.Ascending (define t s.key? definition).entries := by
    unfold define
    split
    · exact wf.ascending
    · exact SymbolTable.ascending_insert wf.ascending _
  refine SymbolTable.restore_of_agrees wf.ascending ascending fun other different => ?_
  cases keyed : s.key? with
  | none => rfl
  | some key =>
    rw [Source.Statement.key?_of_some labelled] at keyed
    have normal : Label.normalize label = .ok key := eq_ok_of_toOption keyed
    exact SymbolTable.get?_insert_of_ne fun same => different (normal.trans (congrArg _ same.symm))

/-- A savepoint takes back whatever its line can have touched. -/
theorem restore_of_touches {t t' : Tables} (symbols : t.symbols.WellFormed)
    (pool : t.pool.WellFormed) {s : Source.Statement} (h : Touches s.key? t t') :
    (Savepoint.take t s.label).restore t' = t := by
  have pool_back : t'.pool.truncate t.pool.size = t.pool :=
    LiteralPool.truncate_of_grows pool h.pool
  unfold Savepoint.take Savepoint.restore
  dsimp only
  rw [pool_back]
  cases labelled : s.label with
  | none =>
    have no_key : s.key? = none := Source.Statement.key?_of_none labelled
    have same : t'.symbols = t.symbols := by
      rcases h.symbols with same | ⟨definition, defined⟩
      · exact same
      · rw [defined, no_key]
        rfl
    rw [same]
  | some label =>
    rcases h.symbols with same | ⟨definition, defined⟩
    · rw [same, Option.bind_some]
      dsimp only
      rw [SymbolTable.restore_lookup symbols.ascending]
    · rw [defined, Option.bind_some]
      dsimp only
      rw [restore_define symbols labelled]

end Assembly

end SicXe
