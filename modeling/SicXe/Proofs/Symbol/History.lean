import SicXe.Proofs.Symbol.Table

/-!
# The symbol table after any changes

Labels and entries may be defined and known labels given other values, in any order, with failures in
between and with labels put back to what they were before (`Call`, `after`). Whatever was done, a table is
a map on labels in normal form (`Faithful`): a change puts at most one symbol under one label and leaves all
others (`Puts`), so that the former entry of that label takes it back (`restore_of_agrees`).
-/
namespace SicXe.SymbolTable

/-- The values that symbols have. -/
abbrev Value := { n : Int // Word.fits n = true }

/-- The changes of a table: a definition, the definition of an entry, and another value. -/
inductive Change where
  | declare (label : String) (value : Value) (relocatable : Bool)
  | seed (line : String)
  | assign (label : String) (value : Value) (relocatable : Bool)
  deriving DecidableEq

/-- What a change answers: what became of a definition or why there is none, the symbol that has another
value, or that there is no such symbol. -/
inductive Answer where
  | defined (d : Declaration)
  | badLabel (e : Label.Error)
  | badEntry (e : Symbol.EntryError)
  | assigned (symbol : Symbol)
  | unknown
  deriving DecidableEq, Repr

def change (t : SymbolTable) : Change → Answer × SymbolTable
  | .declare label value relocatable =>
    match t.declare label value relocatable with
    | .ok (d, t') => (.defined d, t')
    | .error e => (.badLabel e, t)
  | .seed line =>
    match t.seed line with
    | .ok (d, t') => (.defined d, t')
    | .error e => (.badEntry e, t)
  | .assign label value relocatable =>
    match t.assign label value relocatable with
    | (some symbol, t') => (.assigned symbol, t')
    | (none, t') => (.unknown, t')

/-- The table after changes in their order. -/
def changed (t : SymbolTable) (changes : List Change) : SymbolTable :=
  changes.foldl (fun t c => (t.change c).2) t

/-- Changes, after which a label may be put back to what it was before them. -/
structure Call where
  changes : List Change
  undo : Option String
  deriving DecidableEq

def call (t : SymbolTable) (c : Call) : SymbolTable :=
  match c.undo with
  | none => t.changed c.changes
  | some label => (t.changed c.changes).restore label (t.lookup label)

/-- The table after calls in their order. -/
def after (t : SymbolTable) (calls : List Call) : SymbolTable := calls.foldl call t

variable {t t' : SymbolTable} {label key : String} {symbol known : Symbol}

/-! ### Tables that calls can build -/

theorem Built.change (built : t.Built) (c : Change) : (t.change c).2.Built := by
  unfold SymbolTable.change
  cases c with
  | declare label value relocatable =>
    dsimp only
    split
    · rename_i done
      exact built.declare value.2 done
    · exact built
  | seed line =>
    dsimp only
    split
    · rename_i done
      exact built.seed done
    · exact built
  | assign label value relocatable =>
    have assigned := built.assign label relocatable value.2
    dsimp only
    split
    · rename_i eq
      rw [eq] at assigned
      exact assigned
    · rename_i eq
      rw [eq] at assigned
      exact assigned

theorem Built.changed (built : t.Built) (changes : List Change) : (t.changed changes).Built := by
  induction changes generalizing t with
  | nil => exact built
  | cons c rest ih => exact ih (built.change c)

theorem Built.call (built : t.Built) (c : Call) : (t.call c).Built := by
  unfold SymbolTable.call
  split
  · exact built.changed _
  · exact (built.changed _).restore built _

theorem Built.after (built : t.Built) (calls : List Call) : (t.after calls).Built := by
  induction calls generalizing t with
  | nil => exact built
  | cons c rest ih => exact ih (built.call c)

/-! ### What a change changes -/

/-- The label that a change is about, in normal form. -/
def Change.key? : Change → Option String
  | .declare label _ _ => (Label.normalize label).toOption
  | .seed line => (Symbol.ofEntry line).toOption.map Symbol.label
  | .assign label _ _ => (Label.normalize label).toOption

/-- `t'` is `t`, but for the symbol that it holds under its label. -/
def Puts (t t' : SymbolTable) (symbol : Symbol) : Prop :=
  ∀ label, (Label.normalize label = .ok symbol.label → t'.lookup label = some symbol) ∧
    (Label.normalize label ≠ .ok symbol.label → t'.lookup label = t.lookup label)

/-- What the definition of a symbol answers and makes of a table: a new label gets the symbol, and that of
a known label is marked. -/
inductive Defines (t : SymbolTable) (symbol : Symbol) : Declaration → SymbolTable → Prop where
  | new {t' : SymbolTable} (absent : t.lookup symbol.label = none) (puts : Puts t t' symbol) :
      Defines t symbol (.inserted symbol) t'
  | known {t' : SymbolTable} {known : Symbol} (present : t.lookup symbol.label = some known)
      (puts : Puts t t' { known with multiplyDefined := true }) :
      Defines t symbol (.existing { known with multiplyDefined := true }) t'

theorem puts_set (t : SymbolTable) (symbol : Symbol) : Puts t (t.set symbol.label symbol) symbol := by
  intro label
  constructor
  · intro normal
    rw [lookup_of_normalize normal, get?_set_self]
  · intro other
    cases normal : Label.normalize label with
    | error e => rw [lookup_of_error normal, lookup_of_error normal]
    | ok key =>
      have different : key ≠ symbol.label := fun same => other (by rw [normal, same])
      rw [lookup_of_normalize normal, lookup_of_normalize normal, get?_set_of_ne different]

theorem defines_insert (wf : t.WellFormed) (normal : Label.normalize symbol.label = .ok symbol.label) :
    Defines t symbol (t.insert symbol).1 (t.insert symbol).2 := by
  unfold insert
  cases present : t.get? symbol.label with
  | none => exact .new (by rw [lookup_of_normalize normal, present]) (puts_set t symbol)
  | some known =>
    have labelled : known.label = symbol.label := wf.labelled present
    refine .known (by rw [lookup_of_normalize normal, present]) ?_
    have puts := puts_set t { known with multiplyDefined := true }
    rw [← labelled]
    exact puts

theorem change_declare (wf : t.WellFormed) (normal : Label.normalize label = .ok key) (value : Value)
    (relocatable : Bool) : ∃ d t', t.change (.declare label value relocatable) = (.defined d, t') ∧
      Defines t ⟨key, value, relocatable, false⟩ d t' := by
  refine ⟨_, _, ?_, defines_insert wf (Label.normalize_of_normalize normal)⟩
  simp only [change, declare_eq, normal]

theorem change_seed (wf : t.WellFormed) {line : String} (entry : Symbol.ofEntry line = .ok symbol) :
    ∃ d t', t.change (.seed line) = (.defined d, t') ∧ Defines t symbol d t' := by
  refine ⟨_, _, ?_, defines_insert wf (ofEntry_ok entry).1⟩
  simp only [change, seed, entry]

theorem change_assign (wf : t.WellFormed) (present : t.lookup label = some known) (value : Value)
    (relocatable : Bool) : ∃ t', t.change (.assign label value relocatable) =
      (.assigned { known with value := value, relocatable := relocatable }, t') ∧
      Puts t t' { known with value := value, relocatable := relocatable } := by
  cases normal : Label.normalize label with
  | error e =>
    rw [lookup_of_error normal] at present
    cases present
  | ok key =>
    rw [lookup_of_normalize normal] at present
    have labelled : known.label = key := wf.labelled present
    have puts := puts_set t { known with value := value, relocatable := relocatable }
    refine ⟨_, ?_, puts⟩
    simp only [change, assign, normal, present, labelled]

theorem change_assign_unknown (absent : t.lookup label = none) (value : Value) (relocatable : Bool) :
    t.change (.assign label value relocatable) = (.unknown, t) := by
  cases normal : Label.normalize label with
  | error e => simp only [change, assign, normal]
  | ok key =>
    rw [lookup_of_normalize normal] at absent
    simp only [change, assign, normal, absent]

/-! ### Taking changes back -/

/-- A change leaves what is under other labels. -/
theorem get?_change_of_ne (c : Change) {other : String} (h : c.key? ≠ some other) :
    (t.change c).2.get? other = t.get? other := by
  cases c with
  | declare label value relocatable =>
    cases normal : Label.normalize label with
    | error e => simp only [change, declare_eq, normal]
    | ok key =>
      have different : other ≠ key := fun same => h (by rw [Change.key?, normal, same]; rfl)
      simp only [change, declare_eq, normal]
      exact get?_insert_of_ne different
  | seed line =>
    cases entry : Symbol.ofEntry line with
    | error e => simp only [change, seed, entry]
    | ok symbol =>
      have different : other ≠ symbol.label := fun same => h (by rw [Change.key?, entry, same]; rfl)
      simp only [change, seed, entry]
      exact get?_insert_of_ne different
  | assign label value relocatable =>
    cases normal : Label.normalize label with
    | error e => simp only [change, assign, normal]
    | ok key =>
      have different : other ≠ key := fun same => h (by rw [Change.key?, normal, same]; rfl)
      cases present : t.get? key with
      | none => simp only [change, assign, normal, present]
      | some known =>
        simp only [change, assign, normal, present]
        exact get?_set_of_ne different t _

theorem get?_changed_of_ne (changes : List Change) {other : String}
    (h : ∀ c ∈ changes, c.key? ≠ some other) : (t.changed changes).get? other = t.get? other := by
  induction changes generalizing t with
  | nil => rfl
  | cons c rest ih =>
    obtain ⟨first, later⟩ := List.forall_mem_cons.1 h
    exact (ih later).trans (get?_change_of_ne c first)

/-- Changes of one label, whether it is one or not, are taken back by its former entry. -/
theorem restore_changed (built : t.Built) {changes : List Change}
    (same : ∀ c ∈ changes, ∀ key, c.key? = some key → Label.normalize label = .ok key) :
    (t.changed changes).restore label (t.lookup label) = t := by
  refine restore_of_agrees built.wellFormed.ascending (built.changed changes).wellFormed.ascending ?_
  exact fun other different => get?_changed_of_ne changes fun c member about =>
    different (same c member other about)

/-! ### The map that a table is -/

/-- A table is a map on labels in normal form. It holds each symbol under its own label, in the order of
the labels, and each change is one of this map under at most one label. -/
structure Faithful (t : SymbolTable) : Prop where
  stored : ∀ entry ∈ t.entries, entry.2.label = entry.1
  normal : ∀ symbol ∈ t.toList, Label.normalize symbol.label = .ok symbol.label
  ascending : t.toList.Pairwise fun a b => a.label < b.label
  found : ∀ label symbol, t.lookup label = some symbol ↔
    symbol ∈ t.toList ∧ Label.normalize label = .ok symbol.label
  alike : ∀ a b, (Label.normalize a).toOption = (Label.normalize b).toOption →
    t.lookup a = t.lookup b ∧ t.contains a = t.contains b
  declare : ∀ label key, Label.normalize label = .ok key → ∀ (value : Value) (relocatable : Bool),
    ∃ d t', t.change (.declare label value relocatable) = (.defined d, t') ∧
      Defines t ⟨key, value, relocatable, false⟩ d t'
  declare_invalid : ∀ label e, Label.normalize label = .error e → ∀ (value : Value)
    (relocatable : Bool), t.change (.declare label value relocatable) = (.badLabel e, t)
  seed : ∀ line symbol, Symbol.ofEntry line = .ok symbol →
    ∃ d t', t.change (.seed line) = (.defined d, t') ∧ Defines t symbol d t'
  seed_invalid : ∀ line e, Symbol.ofEntry line = .error e → t.change (.seed line) = (.badEntry e, t)
  assign : ∀ label known, t.lookup label = some known → ∀ (value : Value) (relocatable : Bool),
    ∃ t', t.change (.assign label value relocatable) =
        (.assigned { known with value := value, relocatable := relocatable }, t') ∧
      Puts t t' { known with value := value, relocatable := relocatable }
  assign_unknown : ∀ label, t.lookup label = none → ∀ (value : Value) (relocatable : Bool),
    t.change (.assign label value relocatable) = (.unknown, t)
  undone : ∀ label (value : Value) (relocatable : Bool),
    (t.changed [.declare label value relocatable]).restore label (t.lookup label) = t
  undone_assigned : ∀ label other, (Label.normalize other).toOption = (Label.normalize label).toOption →
    ∀ (value value' : Value) (relocatable relocatable' : Bool),
      (t.changed [.declare label value relocatable, .assign other value' relocatable']).restore label
        (t.lookup label) = t

theorem lookup_eq (t : SymbolTable) (label : String) :
    t.lookup label = (Label.normalize label).toOption.bind t.get? := by
  cases normal : Label.normalize label with
  | error e => rw [lookup_of_error normal]; rfl
  | ok key => rw [lookup_of_normalize normal]; rfl

theorem Built.faithful (built : t.Built) : t.Faithful where
  stored _ member := built.wellFormed.stored member
  normal _ member := built.wellFormed.normal (built.wellFormed.mem_toList_iff.1 member)
  ascending := by
    refine List.pairwise_map.2 (built.wellFormed.ascending.imp_of_mem fun {a b} here there below => ?_)
    rw [built.wellFormed.stored here, built.wellFormed.stored there]
    exact below
  found _ _ := built.wellFormed.lookup_eq_some_iff
  alike a b same := by
    have looked : t.lookup a = t.lookup b := by rw [lookup_eq, lookup_eq, same]
    exact ⟨looked, by rw [contains, contains, looked]⟩
  declare _ _ normal := change_declare built.wellFormed normal
  declare_invalid label e invalid value relocatable := by
    simp only [SymbolTable.change, declare_eq, invalid]
  seed _ _ entry := change_seed built.wellFormed entry
  seed_invalid line e invalid := by simp only [SymbolTable.change, SymbolTable.seed, invalid]
  assign _ _ present := change_assign built.wellFormed present
  assign_unknown _ absent := change_assign_unknown absent
  undone label value relocatable := by
    refine restore_changed built fun c member key about => ?_
    obtain rfl := List.mem_singleton.1 member
    exact eq_ok_of_toOption about
  undone_assigned label other same value value' relocatable relocatable' := by
    refine restore_changed built fun c member key about => ?_
    rcases List.mem_cons.1 member with rfl | last
    · exact eq_ok_of_toOption about
    · obtain rfl := List.mem_singleton.1 last
      exact eq_ok_of_toOption (same.symm.trans about)

/-- Labels have one normal form each, and after any calls a table that was empty is a map on these. -/
theorem refines_map :
    (∀ text key, Label.normalize text = .ok key ↔ Label.IsLabel (Text.trim text.toList) ∧
      key = String.ofList ((Text.trim text.toList).map Char.toUpper)) ∧
    (∀ text key, Label.normalize text = .ok key → Label.normalize key = .ok key) ∧
    ∀ history, (empty.after history).Faithful := by
  refine ⟨fun text key => ?_, fun text key => Label.normalize_of_normalize, fun history => ?_⟩
  · rw [Label.normalize_eq_ok_iff, Label.defect?_eq_none_iff_isLabel]
  · exact (Built.empty.after history).faithful

/-- A label that is taken back, one that is defined twice in different cases, and a definition of it that
is taken back with the value that was given to it. -/
theorem refines_map_undone :
    let t := empty.after [⟨[.declare "tmp" ⟨1, rfl⟩ true], some "TMP"⟩,
      ⟨[.seed "3 loop T", .declare "Loop" ⟨4, rfl⟩ false], none⟩, ⟨[.declare "2x" ⟨5, rfl⟩ true], none⟩]
    t.toList = [⟨"LOOP", 3, true, true⟩] ∧
      (t.changed [.declare "end" ⟨6, rfl⟩ true, .assign "END" ⟨7, rfl⟩ false]).restore "end"
        (t.lookup "end") = t := by
  intro t
  have faithful : t.Faithful := refines_map.2.2 _
  refine ⟨by decide +kernel, ?_⟩
  exact faithful.undone_assigned "end" "END" (by decide) ⟨6, rfl⟩ ⟨7, rfl⟩ true false

end SicXe.SymbolTable
