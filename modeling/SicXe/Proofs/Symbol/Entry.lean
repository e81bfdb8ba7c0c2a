import Mathlib.Data.List.Forall2
import SicXe.Proofs.Symbol.History
import SicXe.Proofs.Text.Case
import SicXe.Proofs.Text.Words

/-!
# Symbols in text form

An entry is a value, a label and a flag (`IsEntry`). A line that is none is refused for the first of its
faults (`FirstFault`) and changes no table. A symbol is read from what it is written as
(`ofEntry_written`), and entries of different labels may be defined in any order (`seedAll_perm`).
-/
namespace SicXe

namespace Symbol

/-- The spellings of a flag. -/
def flagWords : Bool → List String
  | true => ["true", "t", "1"]
  | false => ["false", "f", "0"]

/-- A spelling of a flag, in which each letter may be a small one or a capital. -/
def SpellsFlag (word : List Char) (flag : Bool) : Prop :=
  ∃ spelling ∈ flagWords flag, List.Forall₂ (fun c s => c = s ∨ c = s.toUpper) word spelling.toList

/-- Whether a line is the entry of a symbol: a value of 32 bits, a label and a flag. -/
inductive IsEntry (line : String) : Symbol → Prop where
  | mk {valueWord label flagWord : List Char} {value : Int} {relocatable : Bool}
      (worded : Text.Worded line.toList [valueWord, label, flagWord])
      (spells : Text.SpellsInteger valueWord value)
      (fits : -2147483648 ≤ value ∧ value ≤ 2147483647) (valid : Label.IsLabel label)
      (flag : SpellsFlag flagWord relocatable) :
      IsEntry line ⟨String.ofList (label.map Char.toUpper), value, relocatable, false⟩

/-- The first fault of a line as an entry: the field that it is in, and the error that says so. -/
inductive FirstFault (line : String) : String → EntryError → Prop where
  | entry {words : List (List Char)} (worded : Text.Worded line.toList words)
      (count : words.length ≠ 3) :
      FirstFault line "entry" (.wordCount (Text.trimmed line) words.length)
  | value {valueWord label flagWord : List Char}
      (worded : Text.Worded line.toList [valueWord, label, flagWord])
      (unread : ∀ value, Text.SpellsInteger valueWord value →
        ¬ (-2147483648 ≤ value ∧ value ≤ 2147483647)) :
      FirstFault line "value" (.value (String.ofList valueWord))
  | flag {valueWord label flagWord : List Char} {value : Int}
      (worded : Text.Worded line.toList [valueWord, label, flagWord])
      (spells : Text.SpellsInteger valueWord value)
      (fits : -2147483648 ≤ value ∧ value ≤ 2147483647)
      (unread : ∀ relocatable, ¬ SpellsFlag flagWord relocatable) :
      FirstFault line "rflag" (.flag (String.ofList flagWord))
  | label {valueWord label flagWord : List Char} {value : Int} {relocatable : Bool}
      {defect : Label.Defect} (worded : Text.Worded line.toList [valueWord, label, flagWord])
      (spells : Text.SpellsInteger valueWord value)
      (fits : -2147483648 ≤ value ∧ value ≤ 2147483647) (flag : SpellsFlag flagWord relocatable)
      (invalid : Label.FirstDefect label defect) :
      FirstFault line "label" (.label ⟨String.ofList label, defect⟩)

variable {line : String} {word : List Char} {value : Int} {flag : Bool} {s : Symbol}
  {e : EntryError}

/-! ### Fields -/

theorem entryValue?_eq_some_iff : entryValue? word = some value ↔
    Text.SpellsInteger word value ∧ -2147483648 ≤ value ∧ value ≤ 2147483647 := by
  rw [entryValue?, Option.filter_eq_some_iff, Text.integer?_eq_some_iff, Word.fits_iff]

/-- Words in small letters are compared in any case. -/
theorem map_toLower_eq_iff {spelling : List Char} (small : ∀ c ∈ spelling, c.toLower = c) :
    word.map Char.toLower = spelling ↔
      List.Forall₂ (fun c s => c = s ∨ c = s.toUpper) word spelling := by
  induction spelling generalizing word with
  | nil => rw [List.map_eq_nil_iff, List.forall₂_nil_right_iff]
  | cons first rest ih =>
    obtain ⟨here, later⟩ := List.forall_mem_cons.1 small
    cases word with
    | nil => simp
    | cons c word =>
      rw [List.map_cons, List.cons_eq_cons, Text.toLower_eq_iff here, ih later, List.forall₂_cons]

theorem ofList_toLower_eq_iff {spelling : String} (known : spelling ∈ flagWords flag) :
    String.ofList (word.map Char.toLower) = spelling ↔
      List.Forall₂ (fun c s => c = s ∨ c = s.toUpper) word spelling.toList := by
  have all_small : (flagWords flag).all (fun known => known.toList.all fun c => c.toLower = c) = true := by
    cases flag <;> decide
  have small : ∀ c ∈ spelling.toList, c.toLower = c := by
    simpa using List.all_eq_true.1 all_small spelling known
  rw [← map_toLower_eq_iff small, ← String.toList_inj, String.toList_ofList]

theorem entryFlag?_eq_some_iff : entryFlag? word = some flag ↔ SpellsFlag word flag := by
  constructor
  · intro read
    have spelled {spelling : String} (known : spelling ∈ flagWords flag)
        (same : String.ofList (word.map Char.toLower) = spelling) : SpellsFlag word flag :=
      ⟨spelling, known, (ofList_toLower_eq_iff known).1 same⟩
    unfold entryFlag? at read
    split at read <;> rename_i same <;> cases read <;> exact spelled (by decide) same
  · rintro ⟨spelling, known, spelled⟩
    have same := (ofList_toLower_eq_iff known).2 spelled
    cases flag <;> simp only [flagWords, List.mem_cons, List.not_mem_nil, or_false] at known <;>
      rcases known with rfl | rfl | rfl <;> simp only [entryFlag?, same]

/-! ### Lines -/

/-- A line is an entry, or it has a first fault, and is read as such. -/
theorem ofEntry_cases (line : String) : (∃ s, ofEntry line = .ok s ∧ IsEntry line s) ∨
    ∃ e, ofEntry line = .error e ∧ FirstFault line e.parts.1 e := by
  unfold ofEntry
  split
  · rename_i valueWord label flagWord columns
    have worded := Text.words_eq_iff.1 columns
    have visible := (worded.visible (List.mem_cons_of_mem _ List.mem_cons_self)).2
    cases read : entryValue? valueWord with
    | none =>
      refine Or.inr ⟨_, rfl, .value worded fun value spells fits => ?_⟩
      rw [entryValue?_eq_some_iff.2 ⟨spells, fits⟩] at read
      cases read
    | some value =>
      obtain ⟨spells, fits⟩ := entryValue?_eq_some_iff.1 read
      cases set : entryFlag? flagWord with
      | none =>
        refine Or.inr ⟨_, rfl, .flag worded spells fits fun relocatable spelled => ?_⟩
        rw [entryFlag?_eq_some_iff.2 spelled] at set
        cases set
      | some relocatable =>
        have spelled := entryFlag?_eq_some_iff.1 set
        simp only [ofLabel, Label.normalize_ofList visible]
        cases sound : Label.defect? label with
        | none =>
          exact Or.inl ⟨_, rfl, .mk worded spells fits
            (Label.defect?_eq_none_iff_isLabel.1 sound) spelled⟩
        | some defect =>
          exact Or.inr ⟨_, rfl, .label worded spells fits spelled
            (Label.defect?_eq_some_iff.1 sound)⟩
  · rename_i other
    refine Or.inr ⟨_, rfl, .entry (Text.worded_words _) fun three => ?_⟩
    obtain ⟨value, label, flag, columns⟩ := List.length_eq_three.1 three
    exact other value label flag columns

theorem IsEntry.ofEntry (entry : IsEntry line s) : ofEntry line = .ok s := by
  obtain ⟨worded, spells, fits, valid, flag⟩ := entry
  simp only [Symbol.ofEntry, Text.words_eq_iff.2 worded, entryValue?_eq_some_iff.2 ⟨spells, fits⟩,
    entryFlag?_eq_some_iff.2 flag, ofLabel, Label.normalize_ofList valid.visible,
    Label.defect?_eq_none_iff_isLabel.2 valid]

theorem FirstFault.ofEntry {field : String} (fault : FirstFault line field e) :
    ofEntry line = .error e := by
  unfold Symbol.ofEntry
  cases fault with
  | entry worded count =>
    rw [Text.words_eq_iff.2 worded]
    split
    · exact absurd rfl count
    · rfl
  | @value valueWord _ _ worded unread =>
    have refused : entryValue? valueWord = none :=
      Option.eq_none_iff_forall_ne_some.2 fun value read =>
        unread value (entryValue?_eq_some_iff.1 read).1 (entryValue?_eq_some_iff.1 read).2
    simp only [Text.words_eq_iff.2 worded, refused]
  | @flag _ _ flagWord _ worded spells fits unread =>
    have refused : entryFlag? flagWord = none :=
      Option.eq_none_iff_forall_ne_some.2 fun relocatable read =>
        unread relocatable (entryFlag?_eq_some_iff.1 read)
    simp only [Text.words_eq_iff.2 worded, entryValue?_eq_some_iff.2 ⟨spells, fits⟩, refused]
  | label worded spells fits spelled invalid =>
    have visible := (worded.visible (List.mem_cons_of_mem _ List.mem_cons_self)).2
    simp only [Text.words_eq_iff.2 worded, entryValue?_eq_some_iff.2 ⟨spells, fits⟩,
      entryFlag?_eq_some_iff.2 spelled, ofLabel, Label.normalize_ofList visible,
      Label.defect?_eq_some_iff.2 invalid]

theorem ofEntry_eq_ok_iff : ofEntry line = .ok s ↔ IsEntry line s := by
  refine ⟨fun read => ?_, IsEntry.ofEntry⟩
  rcases ofEntry_cases line with ⟨s', read', entry⟩ | ⟨e, refused, _⟩
  · cases read.symm.trans read'
    exact entry
  · cases read.symm.trans refused

theorem ofEntry_eq_error_iff : ofEntry line = .error e ↔ FirstFault line e.parts.1 e := by
  refine ⟨fun refused => ?_, FirstFault.ofEntry⟩
  rcases ofEntry_cases line with ⟨s, read, _⟩ | ⟨e', refused', fault⟩
  · cases refused.symm.trans read
  · cases refused.symm.trans refused'
    exact fault

/-! ### Symbols as they are written -/

/-- The entry of a symbol. It does not say how often the symbol is defined. -/
def written (s : Symbol) : String :=
  toString s.value ++ " " ++ s.label ++ " " ++ toString s.relocatable

theorem spellsFlag_toString (flag : Bool) : SpellsFlag (toString flag).toList flag := by
  rw [← entryFlag?_eq_some_iff]
  cases flag <;> decide

/-- An integer is written without blanks. -/
theorem visible_of_spellsInteger (spells : Text.SpellsInteger word value) :
    word ≠ [] ∧ ∀ c ∈ word, Text.isBlank c = false := by
  have read := Text.integer?_eq_some_iff.2 spells
  obtain ⟨first, rest, rfl, _⟩ := Text.integer?_parts read
  refine ⟨List.cons_ne_nil _ _, fun c inside => ?_⟩
  rcases Text.integer?_chars read c inside with rfl | rfl | digit
  · decide
  · decide
  · refine Label.isBlank_of_isLabelChar ?_
    simp [Label.isLabelChar, Char.isAlphanum, digit]

/-- What a symbol is written as is its entry. -/
theorem ofEntry_written (normal : Label.normalize s.label = .ok s.label)
    (fits : Word.fits s.value = true) :
    ofEntry s.written = .ok { s with multiplyDefined := false } := by
  obtain ⟨label, value, relocatable, multiplyDefined⟩ := s
  obtain ⟨valid, capitals⟩ := Label.isLabel_of_normalize_self normal
  have spells := Text.spellsInteger_toString value
  have flag : (toString relocatable).toList ≠ [] ∧
      ∀ c ∈ (toString relocatable).toList, Text.isBlank c = false := by
    have each : (toString relocatable).toList.all (fun c => !Text.isBlank c) = true := by
      cases relocatable <;> decide
    exact ⟨by cases relocatable <;> decide, by simpa using each⟩
  have columns : Text.words (written ⟨label, value, relocatable, multiplyDefined⟩).toList =
      [(toString value).toList, label.toList, (toString relocatable).toList] := by
    have parts : (written ⟨label, value, relocatable, multiplyDefined⟩).toList =
        (toString value).toList ++ ' ' :: (label.toList ++ ' ' :: (toString relocatable).toList) := by
      simp [written]
    rw [parts, Text.words_of_three]
    simp only [List.forall_mem_cons, List.not_mem_nil]
    exact ⟨visible_of_spellsInteger spells, ⟨valid.filled, valid.visible⟩, flag, by simp⟩
  have entry := IsEntry.mk (Text.words_eq_iff.1 columns) spells (Word.fits_iff.1 fits) valid
    (spellsFlag_toString relocatable)
  rw [capitals, String.ofList_toList] at entry
  exact entry.ofEntry

end Symbol

namespace SymbolTable

open SicXe.Symbol (IsEntry)

variable {t : SymbolTable} {symbols symbols' : List Symbol} {lines lines' : List String}

/-! ### The order of entries -/

/-- The table after symbols are defined in their order. -/
def insertAll (t : SymbolTable) (symbols : List Symbol) : SymbolTable :=
  symbols.foldl (fun t s => (t.insert s).2) t

/-- The symbols of the lines that are entries. -/
def entriesOf (lines : List String) : List Symbol :=
  lines.filterMap fun line => (Symbol.ofEntry line).toOption

theorem seedAll_eq (entries : ∀ line ∈ lines, ∃ s, IsEntry line s) :
    t.seedAll lines = .ok (t.insertAll (entriesOf lines)) := by
  induction lines generalizing t with
  | nil => rfl
  | cons line rest ih =>
    obtain ⟨⟨s, entry⟩, others⟩ := List.forall_mem_cons.1 entries
    have read := entry.ofEntry
    have symbols : entriesOf (line :: rest) = s :: entriesOf rest := by
      rw [entriesOf, List.filterMap_cons, read]
      rfl
    simp only [seedAll, SymbolTable.seed, read, symbols]
    exact ih others

theorem ascending_insertAll (ascending : Ascending t.entries) (symbols : List Symbol) :
    Ascending (t.insertAll symbols).entries := by
  induction symbols generalizing t with
  | nil => exact ascending
  | cons s rest ih => exact ih (ascending_insert ascending s)

/-- Of symbols with different labels each is defined once. -/
theorem get?_insertAll (unique : (symbols.map Symbol.label).Nodup) (key : String) :
    (t.insertAll symbols).get? key =
      match symbols.find? (fun s => s.label = key) with
      | none => t.get? key
      | some s => (t.insert s).2.get? key := by
  induction symbols generalizing t with
  | nil => rfl
  | cons s rest ih =>
    obtain ⟨other, unique⟩ := List.nodup_cons.1 unique
    have step : t.insertAll (s :: rest) = (t.insert s).2.insertAll rest := rfl
    rw [step, ih unique]
    by_cases here : s.label = key
    · have absent : rest.find? (fun s => s.label = key) = none := by
        rw [List.find?_eq_none]
        intro s' member same
        rw [here] at other
        exact other (List.mem_map.2 ⟨s', member, of_decide_eq_true same⟩)
      rw [absent, List.find?_cons_of_pos (by simpa using here)]
    · rw [List.find?_cons_of_neg (by simpa using here)]
      cases found : rest.find? (fun s => s.label = key) with
      | none => exact get?_insert_of_ne (Ne.symm here)
      | some s' => simp only [get?_insert, if_neg (Ne.symm here)]

theorem insertAll_perm (ascending : Ascending t.entries) (unique : (symbols.map Symbol.label).Nodup)
    (same : symbols'.Perm symbols) : t.insertAll symbols' = t.insertAll symbols := by
  have unique' : (symbols'.map Symbol.label).Nodup := (same.map Symbol.label).nodup_iff.2 unique
  refine eq_of_get? (ascending_insertAll ascending _) (ascending_insertAll ascending _) fun key => ?_
  rw [get?_insertAll unique, get?_insertAll unique', find?_eq_of_perm unique same]

theorem nodup_entriesOf (apart : lines.Pairwise fun a b => ∀ x y, IsEntry a x → IsEntry b y →
    x.label ≠ y.label) : ((entriesOf lines).map Symbol.label).Nodup := by
  refine List.pairwise_map.2 (List.pairwise_filterMap.2 (apart.imp ?_))
  intro a b different x read y read'
  exact different x y (Symbol.ofEntry_eq_ok_iff.1 (eq_ok_of_toOption read))
    (Symbol.ofEntry_eq_ok_iff.1 (eq_ok_of_toOption read'))

/-- Entries of different labels may be defined in any order. -/
theorem seedAll_perm (ascending : Ascending t.entries) (entries : ∀ line ∈ lines, ∃ s, IsEntry line s)
    (apart : lines.Pairwise fun a b => ∀ x y, IsEntry a x → IsEntry b y → x.label ≠ y.label)
    (same : lines'.Perm lines) : t.seedAll lines' = .ok (t.insertAll (entriesOf lines)) := by
  have entries' : ∀ line ∈ lines', ∃ s, IsEntry line s := fun line member =>
    entries line (same.mem_iff.1 member)
  have symbols : (entriesOf lines').Perm (entriesOf lines) := same.filterMap _
  rw [seedAll_eq entries', insertAll_perm ascending (nodup_entriesOf apart) symbols]

/-- What lines are entries and why the others are none, that an entry which is none changes no table, that
a symbol is what it is written as, and that entries of different labels may stand in any order. -/
theorem entries_exact :
    (∀ line s, Symbol.ofEntry line = .ok s ↔ IsEntry line s) ∧
    (∀ line e, Symbol.ofEntry line = .error e ↔ Symbol.FirstFault line e.parts.1 e) ∧
    (∀ line e, Symbol.ofEntry line = .error e → ∀ t : SymbolTable,
      t.change (.seed line) = (.badEntry e, t)) ∧
    (∀ s : Symbol, Label.normalize s.label = .ok s.label → Word.fits s.value = true →
      Symbol.ofEntry s.written = .ok { s with multiplyDefined := false }) ∧
    ∀ t : SymbolTable, t.Built → ∀ lines : List String, (∀ line ∈ lines, ∃ s, IsEntry line s) →
      (lines.Pairwise fun a b => ∀ x y, IsEntry a x → IsEntry b y → x.label ≠ y.label) →
      ∃ t', ∀ lines', lines'.Perm lines → t.seedAll lines' = .ok t' := by
  refine ⟨fun line s => Symbol.ofEntry_eq_ok_iff, fun line e => Symbol.ofEntry_eq_error_iff,
    fun line e refused t => ?_, fun s => Symbol.ofEntry_written, ?_⟩
  · simp only [change, SymbolTable.seed, refused]
  · intro t built lines entries apart
    exact ⟨_, fun lines' => seedAll_perm built.wellFormed.ascending entries apart⟩

/-- The lowest value with a flag that is a digit; a value that is too large by one, a flag that is none and
a label that is none; entries in two orders, of which one has its label in small letters. -/
theorem entries_exact_limits :
    Symbol.ofEntry "	-2147483648 lo_1 1 " = .ok ⟨"LO_1", -2147483648, true, false⟩ ∧
    Symbol.FirstFault "2147483648 1ST x" "value" (.value "2147483648") ∧
    Symbol.FirstFault "1 1ST x" "rflag" (.flag "x") ∧
    Symbol.FirstFault "1 1ST F" "label" (.label ⟨"1ST", .firstCharacter⟩) ∧
    Symbol.ofEntry (Symbol.written ⟨"END", -1, false, true⟩) = .ok ⟨"END", -1, false, false⟩ ∧
    ∃ t, empty.seedAll ["2 b t", "1 A 0"] = .ok t ∧ empty.seedAll ["1 A 0", "2 b t"] = .ok t := by
  obtain ⟨entry, fault, _, written, order⟩ := entries_exact
  have first : Symbol.ofEntry "2 b t" = .ok ⟨"B", 2, true, false⟩ := by decide +kernel
  have second : Symbol.ofEntry "1 A 0" = .ok ⟨"A", 1, false, false⟩ := by decide +kernel
  refine ⟨by decide +kernel, (fault "2147483648 1ST x" (.value "2147483648")).1 (by decide +kernel),
    (fault "1 1ST x" (.flag "x")).1 (by decide +kernel),
    (fault "1 1ST F" (.label ⟨"1ST", .firstCharacter⟩)).1 (by decide +kernel),
    written ⟨"END", -1, false, true⟩ (by decide) rfl, ?_⟩
  have apart (x y : Symbol) (read : IsEntry "2 b t" x) (read' : IsEntry "1 A 0" y) :
      x.label ≠ y.label := by
    cases first.symm.trans read.ofEntry
    cases second.symm.trans read'.ofEntry
    decide
  obtain ⟨t, same⟩ := order empty .empty ["2 b t", "1 A 0"]
    (by simpa using ⟨⟨_, (entry _ _).1 first⟩, ⟨_, (entry _ _).1 second⟩⟩) (by simpa using apart)
  exact ⟨t, same _ (.refl _), same _ (.swap _ _ _)⟩

end SymbolTable

end SicXe
