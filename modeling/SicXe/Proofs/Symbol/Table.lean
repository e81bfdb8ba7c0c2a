import SicXe.Proofs.Keys
import SicXe.Proofs.Symbol.Label
import SicXe.Symbol.Table

/-!
# The symbol table as a map

Entries stand in ascending order of their keys, so a table is determined by what it holds under each
key (`eq_of_get?`), and a change under one key can be taken back exactly: what the table held there gives
the former table, not just one that answers alike (`restore_of_agrees`). `WellFormed` is what every table
has that is built by definitions (`Built`).
-/
namespace SicXe.SymbolTable

abbrev Entry := String × Symbol

/-- Strictly ascending keys. -/
def Ascending (entries : List Entry) : Prop := entries.Pairwise fun a b => a.1 < b.1

theorem mem_setIn {key : String} {symbol : Symbol} {entries : List Entry} {entry : Entry}
    (h : entry ∈ setIn key symbol entries) : entry = (key, symbol) ∨ entry ∈ entries := by
  induction entries with
  | nil => exact Or.inl (by simpa [setIn] using h)
  | cons head tail ih =>
    unfold setIn at h
    split at h
    · rcases List.mem_cons.1 h with new | old
      · exact Or.inl new
      · exact Or.inr (List.mem_cons_of_mem _ old)
    · split at h
      · rcases List.mem_cons.1 h with new | old
        · exact Or.inl new
        · exact Or.inr old
      · rcases List.mem_cons.1 h with same | later
        · exact Or.inr (by simp [same])
        · exact (ih later).imp_right (List.mem_cons_of_mem _)

theorem ascending_setIn {entries : List Entry} (key : String) (symbol : Symbol)
    (h : Ascending entries) : Ascending (setIn key symbol entries) := by
  induction entries with
  | nil => simp [setIn, Ascending]
  | cons head tail ih =>
    obtain ⟨above, rest⟩ := List.pairwise_cons.1 h
    unfold setIn
    split
    · rename_i same
      exact List.pairwise_cons.2 ⟨fun entry member => same ▸ above entry member, rest⟩
    · rename_i different
      split
      · rename_i below
        refine List.pairwise_cons.2 ⟨fun entry member => ?_, h⟩
        rcases List.mem_cons.1 member with rfl | later
        · exact below
        · exact String.lt_trans below (above entry later)
      · rename_i not_below
        refine List.pairwise_cons.2 ⟨fun entry member => ?_, ih rest⟩
        rcases mem_setIn member with rfl | later
        · exact String.not_le.1 fun le =>
            different (String.le_antisymm le (String.not_lt.1 not_below))
        · exact above entry later

theorem setIn_setIn (key : String) (first second : Symbol) (entries : List Entry) :
    setIn key second (setIn key first entries) = setIn key second entries := by
  induction entries with
  | nil => simp [setIn]
  | cons head tail ih =>
    by_cases same : key = head.1
    · simp [setIn, same]
    · by_cases below : key < head.1
      · simp [setIn, same, below]
      · simp [setIn, same, below, ih]

/-! ### Changes of a table under one key -/

@[simp] theorem set_set (t : SymbolTable) (key : String) (first second : Symbol) :
    (t.set key first).set key second = t.set key second := by
  simp only [set, setIn_setIn]

theorem get?_eq_some {t : SymbolTable} {key : String} {symbol : Symbol}
    (h : t.get? key = some symbol) : t.entries.find? (·.1 = key) = some (key, symbol) := by
  obtain ⟨entry, found, rfl⟩ := Option.map_eq_some_iff.1 h
  have keyed : entry.1 = key := by simpa using List.find?_some found
  rw [found, ← keyed]

theorem find?_eq_map_get? (t : SymbolTable) (key : String) :
    t.entries.find? (·.1 = key) = (t.get? key).map fun symbol => (key, symbol) := by
  cases known : t.get? key with
  | none =>
    rw [get?, Option.map_eq_none_iff] at known
    exact known
  | some symbol => exact get?_eq_some known

theorem get?_eq_some_iff {t : SymbolTable} (ascending : Ascending t.entries) {key : String}
    {symbol : Symbol} : t.get? key = some symbol ↔ (key, symbol) ∈ t.entries := by
  have asymm (a b : String) (below : a < b) : ¬ b < a := String.lt_asymm below
  have unique := nodup_of_ascending asymm ascending
  have found := find?_eq_some_iff_of_nodup unique (b := key) (a := (key, symbol))
  rw [find?_eq_map_get?] at found
  simpa using found

/-- Tables that hold the same under each key are one table. -/
theorem eq_of_get? {t t' : SymbolTable} (ascending : Ascending t.entries)
    (ascending' : Ascending t'.entries) (same : ∀ key, t.get? key = t'.get? key) : t = t' := by
  have entries : t.entries = t'.entries := by
    have asymm (a b : String) (below : a < b) : ¬ b < a := String.lt_asymm below
    refine eq_of_find?_eq Prod.fst asymm ascending ascending' fun key => ?_
    rw [find?_eq_map_get?, find?_eq_map_get?, same]
  cases t
  cases t'
  exact congrArg mk entries

theorem get?_set (t : SymbolTable) (key : String) (symbol : Symbol) (other : String) :
    (t.set key symbol).get? other = if other = key then some symbol else t.get? other := by
  split
  · rename_i same
    rw [same, get?_set_self]
  · rename_i different
    exact get?_set_of_ne different t symbol

theorem lookup_of_normalize {t : SymbolTable} {label key : String}
    (normal : Label.normalize label = .ok key) :
    t.lookup label = t.get? key := by
  simp only [lookup, normal]

theorem lookup_of_error {t : SymbolTable} {label : String} {e : Label.Error}
    (invalid : Label.normalize label = .error e) :
    t.lookup label = none := by
  simp only [lookup, invalid]

/-- A table that differs under one label only is put back by what the former one held there. -/
theorem restore_of_agrees {t t' : SymbolTable} {label : String} (ascending : Ascending t.entries) (ascending' : Ascending t'.entries)
    (agrees : ∀ other, Label.normalize label ≠ .ok other → t'.get? other = t.get? other) :
    t'.restore label (t.lookup label) = t := by
  cases normal : Label.normalize label with
  | error e =>
    simp only [restore, normal]
    exact eq_of_get? ascending' ascending fun other => agrees other (by rw [normal]; simp)
  | ok key =>
    have elsewhere (other : String) (different : other ≠ key) : t'.get? other = t.get? other :=
      agrees other (by rw [normal]; simpa using Ne.symm different)
    rw [lookup_of_normalize normal]
    cases present : t.get? key with
    | none =>
      simp only [restore, normal]
      refine eq_of_get? (ascending'.filter _) ascending fun other => ?_
      by_cases same : other = key
      · rw [same, get?_erase_self, present]
      · rw [get?_erase_of_ne same, elsewhere other same]
    | some known =>
      simp only [restore, normal]
      refine eq_of_get? (ascending_setIn _ _ ascending') ascending fun other => ?_
      by_cases same : other = key
      · rw [same, get?_set_self, present]
      · rw [get?_set_of_ne same, elsewhere other same]

/-- What `lookup` gives is what `restore` needs, also of a text that is no label. -/
theorem restore_lookup {t : SymbolTable} (h : Ascending t.entries) (label : String) :
    t.restore label (t.lookup label) = t :=
  restore_of_agrees h h fun _ _ => rfl

/-! ### Definitions -/

theorem declare_eq (t : SymbolTable) (label : String) (value : Int) (relocatable : Bool) :
    t.declare label value relocatable =
      match Label.normalize label with
      | .ok key => .ok (t.insert ⟨key, value, relocatable, false⟩)
      | .error e => .error e := by
  unfold declare Symbol.ofLabel
  cases Label.normalize label <;> rfl

/-- What a definition leaves under each key. -/
theorem get?_insert (t : SymbolTable) (symbol : Symbol) (key : String) :
    (t.insert symbol).2.get? key =
      if key = symbol.label then
        match t.get? key with
        | some known => some { known with multiplyDefined := true }
        | none => some symbol
      else t.get? key := by
  unfold insert
  by_cases same : key = symbol.label
  · subst same
    cases t.get? symbol.label <;> simp
  · cases t.get? symbol.label <;> simp [get?_set, same]

theorem get?_insert_of_ne {t : SymbolTable} {symbol : Symbol} {key : String}
    (other : key ≠ symbol.label) : (t.insert symbol).2.get? key = t.get? key := by
  rw [get?_insert, if_neg other]

theorem ascending_insert {t : SymbolTable} (ascending : Ascending t.entries) (symbol : Symbol) :
    Ascending (t.insert symbol).2.entries := by
  unfold insert
  split <;> exact ascending_setIn _ _ ascending

/-- The value of a definition does not matter if its label is known. -/
theorem insert_known {t : SymbolTable} {key : String} {known : Symbol}
    (h : t.get? key = some known) (value : Int) (relocatable : Bool) :
    t.insert ⟨key, value, relocatable, false⟩ =
      (.existing { known with multiplyDefined := true },
        t.set key { known with multiplyDefined := true }) := by
  simp only [insert, h]

theorem insert_new {t : SymbolTable} {key : String} (h : t.get? key = none) (value : Int)
    (relocatable : Bool) :
    t.insert ⟨key, value, relocatable, false⟩ =
      (.inserted ⟨key, value, relocatable, false⟩, t.set key ⟨key, value, relocatable, false⟩) := by
  simp only [insert, h]

/-! ### Tables that keep what they hold -/

/-- Whatever `t` holds, `t'` holds too, and at most more of it is marked as multiply defined. -/
def Keeps (t t' : SymbolTable) : Prop :=
  ∀ key symbol, t.get? key = some symbol →
    ∃ marked, t'.get? key = some { symbol with
      multiplyDefined := symbol.multiplyDefined || marked }

theorem Keeps.refl (t : SymbolTable) : Keeps t t := by
  intro key symbol known
  exact ⟨false, by rw [known, Bool.or_false]⟩

theorem Keeps.trans {t t' t'' : SymbolTable} (first : Keeps t t') (second : Keeps t' t'') :
    Keeps t t'' := by
  intro key symbol known
  obtain ⟨marked, known'⟩ := first key symbol known
  obtain ⟨again, known''⟩ := second key _ known'
  exact ⟨marked || again, by rw [known'', Bool.or_assoc]⟩

theorem keeps_insert (t : SymbolTable) (symbol : Symbol) : Keeps t (t.insert symbol).2 := by
  intro key held known
  rw [get?_insert, known]
  by_cases same : key = symbol.label
  · exact ⟨true, by rw [if_pos same, Bool.or_true]⟩
  · exact ⟨false, by rw [if_neg same, Bool.or_false]⟩

theorem Keeps.lookup {t t' : SymbolTable} (keeps : Keeps t t') {label : String} {symbol : Symbol}
    (h : t.lookup label = some symbol) :
    ∃ marked, t'.lookup label = some { symbol with
      multiplyDefined := symbol.multiplyDefined || marked } := by
  unfold SymbolTable.lookup at h ⊢
  cases normal : Label.normalize label with
  | error e => simp [normal] at h
  | ok key =>
    rw [normal] at h
    exact keeps key symbol h

/-! ### Well-formed tables -/

/-- Ascending keys, each of them the label of its symbol and a label in normal form; every value is
one of 32 bits. -/
structure WellFormed (t : SymbolTable) : Prop where
  ascending : Ascending t.entries
  labelled : ∀ {key symbol}, t.get? key = some symbol → symbol.label = key
  normal : ∀ {key symbol}, t.get? key = some symbol → Label.normalize key = .ok key
  fits : ∀ {key symbol}, t.get? key = some symbol → Word.fits symbol.value = true

theorem WellFormed.stored {t : SymbolTable} (wf : WellFormed t) {entry : Entry}
    (member : entry ∈ t.entries) : entry.2.label = entry.1 :=
  wf.labelled ((get?_eq_some_iff wf.ascending).2 member)

/-- The keys are the labels of the symbols. -/
theorem WellFormed.entries_eq {t : SymbolTable} (wf : WellFormed t) :
    t.entries = t.toList.map fun s => (s.label, s) := by
  rw [toList, List.map_map]
  calc t.entries = t.entries.map id := (List.map_id _).symm
    _ = _ := List.map_congr_left fun entry member => by rw [Function.comp_apply, wf.stored member, id]

theorem WellFormed.mem_toList_iff {t : SymbolTable} (wf : WellFormed t) {symbol : Symbol} :
    symbol ∈ t.toList ↔ t.get? symbol.label = some symbol := by
  rw [get?_eq_some_iff wf.ascending, toList, List.mem_map]
  constructor
  · rintro ⟨entry, member, rfl⟩
    rw [wf.stored member]
    exact member
  · intro member
    exact ⟨_, member, rfl⟩

/-- A symbol is found by all spellings of its label. -/
theorem WellFormed.lookup_eq_some_iff {t : SymbolTable} (wf : WellFormed t) {label : String}
    {symbol : Symbol} : t.lookup label = some symbol ↔
      symbol ∈ t.toList ∧ Label.normalize label = .ok symbol.label := by
  rw [wf.mem_toList_iff]
  constructor
  · intro present
    cases normal : Label.normalize label with
    | error e =>
      rw [lookup_of_error normal] at present
      cases present
    | ok key =>
      rw [lookup_of_normalize normal] at present
      rw [wf.labelled present]
      exact ⟨present, rfl⟩
  · rintro ⟨present, normal⟩
    rw [lookup_of_normalize normal, present]

theorem WellFormed.lookup_label_iff {t : SymbolTable} (wf : WellFormed t) {symbol : Symbol} :
    t.lookup symbol.label = some symbol ↔ symbol ∈ t.toList := by
  rw [wf.lookup_eq_some_iff]
  exact ⟨And.left, fun member => ⟨member, wf.normal (wf.mem_toList_iff.1 member)⟩⟩

theorem wellFormed_empty : WellFormed empty where
  ascending := List.Pairwise.nil
  labelled := by simp
  normal := by simp
  fits := by simp

theorem WellFormed.set {t : SymbolTable} (wf : WellFormed t) (symbol : Symbol)
    (normal : Label.normalize symbol.label = .ok symbol.label)
    (fits : Word.fits symbol.value = true) : WellFormed (t.set symbol.label symbol) where
  ascending := ascending_setIn _ _ wf.ascending
  labelled {key s} h := by
    rw [get?_set] at h
    split at h
    · rename_i same
      cases h
      exact same.symm
    · exact wf.labelled h
  normal {key s} h := by
    rw [get?_set] at h
    split at h
    · rename_i same
      rw [same, normal]
    · exact wf.normal h
  fits {key s} h := by
    rw [get?_set] at h
    split at h
    · cases h
      exact fits
    · exact wf.fits h

theorem WellFormed.insert {t : SymbolTable} (wf : WellFormed t) (symbol : Symbol)
    (normal : Label.normalize symbol.label = .ok symbol.label)
    (fits : Word.fits symbol.value = true) : WellFormed (t.insert symbol).2 := by
  unfold SymbolTable.insert
  cases known : t.get? symbol.label with
  | none => exact wf.set symbol normal fits
  | some former =>
    have same_label : former.label = symbol.label := wf.labelled known
    have former_fits := wf.fits known
    have marked := wf.set { former with multiplyDefined := true }
      (same_label ▸ wf.normal known) former_fits
    simpa only [same_label] using marked

theorem WellFormed.assign {t : SymbolTable} (wf : WellFormed t) (label : String) {value : Int}
    (relocatable : Bool) (fits : Word.fits value = true) :
    WellFormed (t.assign label value relocatable).2 := by
  unfold SymbolTable.assign
  cases Label.normalize label with
  | error e => exact wf
  | ok key =>
    dsimp only
    cases known : t.get? key with
    | none => exact wf
    | some former =>
      have same_label : former.label = key := wf.labelled known
      have changed := wf.set { former with value := value, relocatable := relocatable }
        (same_label ▸ wf.normal known) fits
      simpa only [same_label] using changed

theorem WellFormed.erase {t : SymbolTable} (wf : WellFormed t) (key : String) :
    WellFormed (t.erase key) := by
  have kept {other : String} {symbol : Symbol} (h : (t.erase key).get? other = some symbol) :
      t.get? other = some symbol := by
    by_cases same : other = key
    · rw [same, get?_erase_self] at h
      cases h
    · rw [get?_erase_of_ne same] at h
      exact h
  exact {
    ascending := wf.ascending.filter _
    labelled := fun h => wf.labelled (kept h)
    normal := fun h => wf.normal (kept h)
    fits := fun h => wf.fits (kept h) }

/-- A label may get back what any well-formed table holds for it. -/
theorem WellFormed.restore {t former : SymbolTable} (wf : WellFormed t)
    (former_wf : WellFormed former) (label : String) :
    WellFormed (t.restore label (former.lookup label)) := by
  unfold SymbolTable.restore SymbolTable.lookup
  cases Label.normalize label with
  | error e => exact wf
  | ok key =>
    dsimp only
    cases known : former.get? key with
    | none => exact wf.erase key
    | some symbol =>
      have same_label : symbol.label = key := former_wf.labelled known
      have put_back := wf.set symbol (same_label ▸ former_wf.normal known) (former_wf.fits known)
      simpa only [same_label] using put_back

/-- The tables that come from the empty one by definitions of labels and of entries in text form, by
other values for known labels, and by giving labels back what a table held for them. -/
inductive Built : SymbolTable → Prop where
  | empty : Built empty
  | declare {t t' : SymbolTable} {label : String} {value : Int} {relocatable : Bool}
      {d : Declaration} (built : Built t) (fits : Word.fits value = true)
      (done : t.declare label value relocatable = .ok (d, t')) : Built t'
  | seed {t t' : SymbolTable} {line : String} {d : Declaration} (built : Built t)
      (done : t.seed line = .ok (d, t')) : Built t'
  | assign {t : SymbolTable} {value : Int} (built : Built t) (label : String) (relocatable : Bool)
      (fits : Word.fits value = true) : Built (t.assign label value relocatable).2
  | restore {t former : SymbolTable} (built : Built t) (earlier : Built former) (label : String) :
      Built (t.restore label (former.lookup label))

/-- The symbol of an entry has a normal label and a value of 32 bits. -/
theorem ofEntry_ok {line : String} {symbol : Symbol} (h : Symbol.ofEntry line = .ok symbol) :
    Label.normalize symbol.label = .ok symbol.label ∧ Word.fits symbol.value = true := by
  unfold Symbol.ofEntry at h
  split at h
  · rename_i value label flag _
    cases read : Symbol.entryValue? value with
    | none => simp [read] at h
    | some number =>
      cases set : Symbol.entryFlag? flag with
      | none => simp [read, set] at h
      | some relocatable =>
        cases normal : Label.normalize (String.ofList label) with
        | error e => simp [read, set, Symbol.ofLabel, normal] at h
        | ok key =>
          simp only [read, set, Symbol.ofLabel, normal, Except.ok.injEq] at h
          subst h
          exact ⟨Label.normalize_of_normalize normal, (Option.filter_eq_some_iff.1 read).2⟩
  · simp at h

theorem Built.wellFormed {t : SymbolTable} (h : Built t) : WellFormed t := by
  induction h with
  | empty => exact wellFormed_empty
  | @declare t t' label value relocatable d _ fits done ih =>
    rw [declare_eq] at done
    cases normal : Label.normalize label with
    | error e => simp [normal] at done
    | ok key =>
      rw [normal] at done
      have := ih.insert ⟨key, value, relocatable, false⟩
        (Label.normalize_of_normalize normal) fits
      rwa [Except.ok.inj done] at this
  | @seed t t' line d _ done ih =>
    unfold SymbolTable.seed at done
    cases read : Symbol.ofEntry line with
    | error e => simp [read] at done
    | ok symbol =>
      rw [read] at done
      have := ih.insert symbol (ofEntry_ok read).1 (ofEntry_ok read).2
      rwa [Except.ok.inj done] at this
  | assign _ label relocatable fits ih => exact ih.assign label relocatable fits
  | restore _ _ label ih former => exact ih.restore former label

end SicXe.SymbolTable
