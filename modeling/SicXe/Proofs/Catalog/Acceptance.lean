import SicXe.Proofs.Catalog.Registration
import SicXe.Proofs.Source.Statement
import SicXe.Proofs.Symbol.Label
import SicXe.Proofs.Text.Numeral

/-!
# Which opcode tables load

A table is a list of lines, and whether it loads is a condition on all of them at once (`Valid`): every
line that is not blank describes an instruction, no two describe the same mnemonic or the same opcode, and
no mnemonic is the name of a directive. The loader checks each line against the catalog of the lines above
it. That catalog knows exactly what those lines describe (`Holds`), so a line is refused exactly if it
breaks a rule against them (`registerLine_error_iff`), and the first such line is the error of the table.
The condition does not look at the order of the lines, and so neither do the answers of the catalog.
-/
namespace SicXe

open Instruction (Directive Format)

namespace Instruction.Format

theorem ofSize?_eq_some_iff {size : Nat} {f : Format} : ofSize? size = some f ↔ f.size = size := by
  constructor
  · intro found
    simpa using List.find?_some found
  · rintro rfl
    exact ofSize?_size f

/-- The spellings of a format: a byte from one to four, or `3/4` for three. -/
inductive Spells : List Char → Format → Prop where
  | extensible : Spells ['3', '/', '4'] .three
  | size {word : List Char} {f : Format} {b : UInt8} (spells : Text.SpellsByte 10 word b)
      (size : f.size = b.toNat) (sized : f ≠ .unsized) : Spells word f

theorem ofText?_eq_some_iff {word : List Char} (plain : ∀ c ∈ word, Text.isBlank c = false)
    {f : Format} : ofText? (String.ofList word) = some f ↔ Spells word f := by
  dsimp only [ofText?]
  rw [String.toList_ofList, Text.trim_of_no_blank plain]
  split
  · rename_i extensible
    subst extensible
    constructor
    · rintro ⟨⟩
      exact .extensible
    · intro spells
      cases spells with
      | extensible => rfl
      | size byte _ _ =>
        rw [← Text.byte?_eq_some_iff] at byte
        cases byte
  · rename_i other
    have by_size : Spells word f ↔
        ∃ b, Text.byte? 10 word = some b ∧ f.size = b.toNat ∧ f ≠ .unsized := by
      constructor
      · intro spells
        cases spells with
        | extensible => exact absurd rfl other
        | size byte size sized => exact ⟨_, Text.byte?_eq_some_iff.2 byte, size, sized⟩
      · rintro ⟨b, byte, size, sized⟩
        exact .size (Text.byte?_eq_some_iff.1 byte) size sized
    rw [by_size]
    cases Text.byte? 10 word with
    | none => simp
    | some b => simp [Option.filter_eq_some_iff, ofSize?_eq_some_iff]

end Instruction.Format

namespace Catalog

/-! ### Valid tables -/

/-- Whether a line of a table has the three columns of an instruction: its mnemonic, its opcode in hex and
its format. -/
def Describes (line : List Char) (mnemonic : String) (opcode : UInt8) (format : Format) : Prop :=
  ∃ opcodeWord formatWord, Text.words line = [mnemonic.toList, opcodeWord, formatWord] ∧
    Text.SpellsByte 16 opcodeWord opcode ∧ Format.Spells formatWord format

/-- A line that describes the instruction of an opcode with this mnemonic in capitals. -/
def Owns (lines : List (List Char)) (opcode : UInt8) (key : String) : Prop :=
  ∃ line ∈ lines, ∃ mnemonic format, Describes line mnemonic opcode format ∧
    Instruction.upper mnemonic = key

/-- A mnemonic in capitals that a line describes, or the name of a directive. -/
def Taken (lines : List (List Char)) (key : String) : Prop :=
  (∃ d : Directive, d.name = key) ∨ ∃ opcode, Owns lines opcode key

/-- Two lines that may stand in one table. -/
def Apart (a b : List Char) : Prop :=
  ∀ {mnemonic opcode format mnemonic' opcode' format'}, Describes a mnemonic opcode format →
    Describes b mnemonic' opcode' format' →
      Instruction.upper mnemonic ≠ Instruction.upper mnemonic' ∧ opcode ≠ opcode'

/-- The tables that load. -/
structure Valid (lines : List (List Char)) : Prop where
  described : ∀ line ∈ lines, (∃ c ∈ line, Text.isBlank c = false) →
    ∃ mnemonic opcode format, Describes line mnemonic opcode format
  apart : lines.Pairwise Apart
  undirected : ∀ line ∈ lines, ∀ {mnemonic opcode format}, Describes line mnemonic opcode format →
    ∀ d : Directive, d.name ≠ Instruction.upper mnemonic

/-- The first rule that a line breaks below other lines, as the error that says so. -/
inductive Breaks (above : List (List Char)) (line : List Char) : Error → Prop where
  | columns (filled : Text.words line ≠ []) (count : (Text.words line).length ≠ 3) :
      Breaks above line
        (.invalidEntry (above.length + 1) (String.ofList (Text.trim line)) .columns)
  | opcode {mnemonic opcodeWord formatWord : List Char}
      (columns : Text.words line = [mnemonic, opcodeWord, formatWord])
      (unread : ∀ opcode, ¬ Text.SpellsByte 16 opcodeWord opcode) :
      Breaks above line
        (.invalidEntry (above.length + 1) (String.ofList (Text.trim line)) .opcode)
  | format {mnemonic opcodeWord formatWord : List Char} {opcode : UInt8}
      (columns : Text.words line = [mnemonic, opcodeWord, formatWord])
      (spells : Text.SpellsByte 16 opcodeWord opcode)
      (unread : ∀ format, ¬ Format.Spells formatWord format) :
      Breaks above line
        (.invalidEntry (above.length + 1) (String.ofList (Text.trim line)) .format)
  | mnemonic {mnemonic : String} {opcode : UInt8} {format : Format}
      (describes : Describes line mnemonic opcode format)
      (taken : Taken above (Instruction.upper mnemonic)) :
      Breaks above line (.duplicateMnemonic (Instruction.upper mnemonic))
  | owner {mnemonic owner : String} {opcode : UInt8} {format : Format}
      (describes : Describes line mnemonic opcode format)
      (free : ¬ Taken above (Instruction.upper mnemonic)) (owned : Owns above opcode owner) :
      Breaks above line (.duplicateOpcode (Instruction.upper mnemonic) opcode owner)

variable {c c' : Catalog} {line : List Char} {above lines : List (List Char)} {mnemonic : String}
  {opcode : UInt8} {format : Format} {e : Error}

/-! ### Lines as they are read -/

/-- A format column has no blanks, as no column has. -/
theorem spells_of_column {formatWord : List Char} (column : formatWord ∈ Text.words line) :
    Format.ofText? (String.ofList formatWord) = some format ↔ Format.Spells formatWord format :=
  Format.ofText?_eq_some_iff fun _ inside => Text.isBlank_of_mem_words column inside

theorem isEntry_iff : IsEntry line mnemonic opcode format ↔ Describes line mnemonic opcode format := by
  unfold IsEntry Describes
  constructor
  · rintro ⟨opcodeWord, formatWord, columns, byte, read⟩
    have column : formatWord ∈ Text.words line := by simp [columns]
    exact ⟨opcodeWord, formatWord, columns, Text.byte?_eq_some_iff.1 byte,
      (spells_of_column column).1 read⟩
  · rintro ⟨opcodeWord, formatWord, columns, byte, spells⟩
    have column : formatWord ∈ Text.words line := by simp [columns]
    exact ⟨opcodeWord, formatWord, columns, Text.byte?_eq_some_iff.2 byte,
      (spells_of_column column).2 spells⟩

/-- A line describes one instruction. -/
theorem Describes.unique {mnemonic' : String} {opcode' : UInt8} {format' : Format}
    (describes : Describes line mnemonic opcode format)
    (again : Describes line mnemonic' opcode' format') :
    mnemonic' = mnemonic ∧ opcode' = opcode ∧ format' = format := by
  obtain ⟨_, _, columns, byte, read⟩ := isEntry_iff.2 describes
  obtain ⟨_, _, columns', byte', read'⟩ := isEntry_iff.2 again
  rw [columns] at columns'
  obtain ⟨name, rfl, rfl⟩ : mnemonic.toList = mnemonic'.toList ∧ _ ∧ _ := by simpa using columns'
  rw [byte] at byte'
  rw [read] at read'
  cases byte'
  cases read'
  exact ⟨(String.toList_inj.1 name).symm, rfl, rfl⟩

theorem Describes.filled (describes : Describes line mnemonic opcode format) :
    ∃ c ∈ line, Text.isBlank c = false := by
  obtain ⟨_, _, columns, _⟩ := describes
  by_contra blank
  have no_word : Text.words line = [] := by
    rw [Text.words_eq_nil_iff]
    intro c inside
    by_contra visible
    exact blank ⟨c, inside, by simpa using visible⟩
  rw [columns] at no_word
  cases no_word

/-! ### The catalog of some lines -/

/-- A catalog of what the lines describe, one instruction for each that is not blank. -/
structure Holds (lines : List (List Char)) (c : Catalog) : Prop where
  sound : c.Sound
  valid : Valid lines
  entries : ∀ i, i ∈ c.entries ↔ ∃ line ∈ lines, ∃ mnemonic opcode format,
    Describes line mnemonic opcode format ∧
      i = .machine (Instruction.upper mnemonic) opcode format
  size : c.size = lines.countP fun line => line.any fun c => !Text.isBlank c

theorem holds_empty : Holds [] .empty where
  sound := sound_empty
  valid := ⟨by simp, List.Pairwise.nil, by simp⟩
  entries := by simp [empty]
  size := rfl

theorem Holds.mnemonicOf?_eq_some_iff (holds : Holds lines c) {key : String} :
    c.mnemonicOf? opcode = some key ↔ Owns lines opcode key := by
  rw [holds.sound.mnemonicOf?_eq_some_iff]
  constructor
  · rintro ⟨format, member⟩
    obtain ⟨line, here, mnemonic, opcode', format', describes, same⟩ := (holds.entries _).1 member
    cases same
    exact ⟨line, here, mnemonic, format, describes, rfl⟩
  · rintro ⟨line, here, mnemonic, format, describes, rfl⟩
    exact ⟨format, (holds.entries _).2 ⟨line, here, mnemonic, opcode, format, describes, rfl⟩⟩

theorem Holds.isSome_find?_iff (holds : Holds lines c) {key : String} :
    (c.find? key).isSome = true ↔ Taken lines key := by
  rw [Option.isSome_iff_exists]
  simp only [holds.sound.find?_eq_some_iff]
  constructor
  · rintro ⟨i, ⟨d, name, rfl⟩ | ⟨member, rfl⟩⟩
    · exact Or.inl ⟨d, name⟩
    · obtain ⟨line, here, mnemonic, opcode, format, describes, rfl⟩ := (holds.entries _).1 member
      exact Or.inr ⟨opcode, line, here, mnemonic, format, describes, rfl⟩
  · rintro (⟨d, name⟩ | ⟨opcode, line, here, mnemonic, format, describes, rfl⟩)
    · exact ⟨_, Or.inl ⟨d, name, rfl⟩⟩
    · exact ⟨_, Or.inr ⟨(holds.entries _).2 ⟨line, here, mnemonic, opcode, format, describes, rfl⟩, rfl⟩⟩

theorem Valid.concat (valid : Valid above)
    (described : (∃ c ∈ line, Text.isBlank c = false) →
      ∃ mnemonic opcode format, Describes line mnemonic opcode format)
    (free : ∀ {mnemonic opcode format}, Describes line mnemonic opcode format →
      ¬ Taken above (Instruction.upper mnemonic) ∧ ∀ owner, ¬ Owns above opcode owner) :
    Valid (above ++ [line]) where
  described := by
    intro other member
    rcases List.mem_append.1 member with former | last
    · exact valid.described other former
    · cases List.mem_singleton.1 last
      exact described
  apart := by
    refine List.pairwise_append.2 ⟨valid.apart, List.pairwise_singleton _ _, ?_⟩
    intro other former _ last
    cases List.mem_singleton.1 last
    intro mnemonic opcode format mnemonic' opcode' format' describes describes'
    obtain ⟨not_taken, not_owned⟩ := free describes'
    constructor
    · intro same
      exact not_taken (Or.inr ⟨opcode, other, former, mnemonic, format, describes, same⟩)
    · rintro rfl
      exact not_owned _ ⟨other, former, mnemonic, format, describes, rfl⟩
  undirected := by
    intro other member mnemonic opcode format describes d name
    rcases List.mem_append.1 member with former | last
    · exact valid.undirected other former describes d name
    · cases List.mem_singleton.1 last
      exact (free describes).1 (Or.inl ⟨d, name⟩)

/-- A line that is accepted is held together with those above it. -/
theorem Holds.registerLine (holds : Holds above c) {number : Nat}
    (h : c.registerLine number line = .ok c') : Holds (above ++ [line]) c' := by
  rcases registerLine_ok h with ⟨blank, rfl⟩ | ⟨mnemonic, opcode, format, entry, registered⟩
  · have no_visible : ¬ ∃ c ∈ line, Text.isBlank c = false := by
      rintro ⟨c, inside, visible⟩
      rw [(Text.words_eq_nil_iff line).1 blank c inside] at visible
      cases visible
    have nothing {mnemonic : String} {opcode : UInt8} {format : Format} :
        ¬ Describes line mnemonic opcode format := fun describes => no_visible describes.filled
    refine ⟨holds.sound, holds.valid.concat (fun visible => absurd visible no_visible)
      (fun describes => absurd describes nothing), fun i => ?_, ?_⟩
    · simp [holds.entries, or_and_right, exists_or, nothing]
    · have not_counted : (line.any fun c => !Text.isBlank c) = false := by
        simpa using no_visible
      simp [List.countP_append, not_counted, holds.size]
  · have describes := isEntry_iff.1 entry
    obtain ⟨unknown, unowned, rfl⟩ := register_ok_iff.1 registered
    have free : ∀ {mnemonic' opcode' format'}, Describes line mnemonic' opcode' format' →
        ¬ Taken above (Instruction.upper mnemonic') ∧ ∀ owner, ¬ Owns above opcode' owner := by
      intro mnemonic' opcode' format' again
      obtain ⟨rfl, rfl, rfl⟩ := describes.unique again
      constructor
      · rw [← holds.isSome_find?_iff, unknown]
        exact Bool.false_ne_true
      · intro owner
        rw [← holds.mnemonicOf?_eq_some_iff, unowned]
        exact fun same => nomatch same
    refine ⟨holds.sound.register entry.sized registered,
      holds.valid.concat (fun _ => ⟨_, _, _, describes⟩) free, fun i => ?_, ?_⟩
    · have last : i = .machine (Instruction.upper mnemonic) opcode format ↔
          ∃ mnemonic' opcode' format', Describes line mnemonic' opcode' format' ∧
            i = .machine (Instruction.upper mnemonic') opcode' format' := by
        constructor
        · rintro rfl
          exact ⟨_, _, _, describes, rfl⟩
        · rintro ⟨mnemonic', opcode', format', again, rfl⟩
          obtain ⟨rfl, rfl, rfl⟩ := describes.unique again
          rfl
      simp only [List.mem_append, List.mem_singleton, holds.entries, last, or_and_right, exists_or,
        exists_eq_left]
    · have counted : (line.any fun c => !Text.isBlank c) = true := by
        simpa using describes.filled
      have former := holds.size
      rw [Catalog.size] at former
      simp [Catalog.size, List.countP_append, counted, former]

/-! ### Refused lines -/

theorem registerLine_of_describes (describes : Describes line mnemonic opcode format) (number : Nat) :
    c.registerLine number line = c.register mnemonic opcode format := by
  obtain ⟨opcodeWord, formatWord, columns, byte, read⟩ := isEntry_iff.2 describes
  simp only [Catalog.registerLine, columns, byte, read, String.ofList_toList]

/-- Registration names the first of the two clashes. -/
theorem register_error_iff : c.register mnemonic opcode format = .error e ↔
    ((c.find? (Instruction.upper mnemonic)).isSome = true ∧
      e = .duplicateMnemonic (Instruction.upper mnemonic)) ∨
    ((c.find? (Instruction.upper mnemonic)).isSome = false ∧ ∃ owner,
      c.mnemonicOf? opcode = some owner ∧
        e = .duplicateOpcode (Instruction.upper mnemonic) opcode owner) := by
  dsimp only [register]
  cases known : c.find? (Instruction.upper mnemonic) with
  | some i => simp [eq_comm]
  | none => cases owned : c.mnemonicOf? opcode <;> simp [eq_comm]

/-- A line that is refused breaks a rule against the lines above it. -/
theorem breaks_of_registerLine (holds : Holds above c)
    (h : c.registerLine (above.length + 1) line = .error e) : Breaks above line e := by
  have refused := h
  dsimp only [Catalog.registerLine] at h
  split at h
  · cases h
  · rename_i mnemonic opcodeWord formatWord columns
    have column : formatWord ∈ Text.words line := by simp [columns]
    split at h
    · rename_i unread
      cases h
      refine .opcode columns fun opcode spells => ?_
      rw [Text.byte?_eq_some_iff.2 spells] at unread
      cases unread
    · rename_i opcode byte
      have spells := Text.byte?_eq_some_iff.1 byte
      split at h
      · rename_i unread
        cases h
        refine .format columns spells fun format spells => ?_
        rw [(spells_of_column column).2 spells] at unread
        cases unread
      · rename_i format read
        have describes : Describes line (String.ofList mnemonic) opcode format :=
          ⟨opcodeWord, formatWord, by rw [columns, String.toList_ofList], spells,
            (spells_of_column column).1 read⟩
        rcases register_error_iff.1 h with ⟨known, rfl⟩ | ⟨unknown, owner, owned, rfl⟩
        · exact .mnemonic describes (holds.isSome_find?_iff.1 known)
        · refine .owner describes (fun taken => ?_) (holds.mnemonicOf?_eq_some_iff.1 owned)
          rw [holds.isSome_find?_iff.2 taken] at unknown
          cases unknown
  · rename_i blank other
    cases h
    refine .columns blank fun count => ?_
    obtain ⟨mnemonic, opcodeWord, formatWord, columns⟩ := List.length_eq_three.1 count
    exact other _ _ _ columns

/-- A line is refused exactly if it breaks a rule against the lines above it. -/
theorem registerLine_error_iff (holds : Holds above c) :
    c.registerLine (above.length + 1) line = .error e ↔ Breaks above line e := by
  refine ⟨breaks_of_registerLine holds, fun breaks => ?_⟩
  cases breaks with
  | columns filled count =>
    dsimp only [Catalog.registerLine]
    split
    · rename_i blank
      exact absurd blank filled
    · rename_i columns
      rw [columns] at count
      exact absurd rfl count
    · rfl
  | opcode columns unread =>
    rename_i opcodeWord _
    have none_read : Text.byte? 16 opcodeWord = none :=
      Option.eq_none_iff_forall_ne_some.2 fun opcode read => unread opcode (Text.byte?_eq_some_iff.1 read)
    simp only [Catalog.registerLine, columns, none_read]
  | format columns spells unread =>
    rename_i opcodeWord formatWord opcode
    have column : formatWord ∈ Text.words line := by simp [columns]
    have none_read : Format.ofText? (String.ofList formatWord) = none :=
      Option.eq_none_iff_forall_ne_some.2 fun format read =>
        unread format ((spells_of_column column).1 read)
    simp only [Catalog.registerLine, columns, Text.byte?_eq_some_iff.2 spells, none_read]
  | mnemonic describes taken =>
    rw [registerLine_of_describes describes, register_error_iff]
    exact Or.inl ⟨holds.isSome_find?_iff.2 taken, rfl⟩
  | owner describes free owned =>
    rw [registerLine_of_describes describes, register_error_iff]
    refine Or.inr ⟨?_, _, holds.mnemonicOf?_eq_some_iff.2 owned, rfl⟩
    rw [← Bool.not_eq_true, holds.isSome_find?_iff]
    exact free

/-! ### Tables -/

/-- The lines of a table are all accepted, or there is a first one that breaks a rule. -/
theorem registerLines_cases (holds : Holds above c) (rest : List (List Char)) :
    (∃ c', registerLines (above.length + 1) c rest = .ok c' ∧ Holds (above ++ rest) c') ∨
    (∃ front line below e, registerLines (above.length + 1) c rest = .error e ∧
      rest = front ++ line :: below ∧ Valid (above ++ front) ∧ Breaks (above ++ front) line e) := by
  induction rest generalizing above c with
  | nil => exact Or.inl ⟨c, rfl, by rw [List.append_nil]; exact holds⟩
  | cons line rest ih =>
    unfold registerLines
    cases read : c.registerLine (above.length + 1) line with
    | error e =>
      refine Or.inr ⟨[], line, rest, e, rfl, rfl, ?_, ?_⟩
      · rw [List.append_nil]
        exact holds.valid
      · rw [List.append_nil]
        exact breaks_of_registerLine holds read
    | ok next =>
      have held := ih (holds.registerLine read)
      rw [List.length_append, List.length_singleton] at held
      rcases held with ⟨c', done, all⟩ | ⟨front, bad, below, e, stopped, rfl, valid, breaks⟩
      · refine Or.inl ⟨c', done, ?_⟩
        rw [List.append_assoc] at all
        exact all
      · rw [List.append_assoc] at valid breaks
        exact Or.inr ⟨line :: front, bad, below, e, stopped, rfl, valid, breaks⟩

/-- A line that breaks a rule against those above it is in no valid table below them. -/
theorem Breaks.not_valid {below : List (List Char)} (breaks : Breaks above line e) :
    ¬ Valid (above ++ line :: below) := by
  intro valid
  have here : line ∈ above ++ line :: below := by simp
  have filled (word : Text.words line ≠ []) : ∃ c ∈ line, Text.isBlank c = false := by
    by_contra blank
    refine word ((Text.words_eq_nil_iff line).2 fun c inside => ?_)
    by_contra visible
    exact blank ⟨c, inside, by simpa using visible⟩
  have columns_of {mnemonic opcodeWord formatWord : List Char}
      (columns : Text.words line = [mnemonic, opcodeWord, formatWord]) : ∃ opcode format,
      Text.SpellsByte 16 opcodeWord opcode ∧ Format.Spells formatWord format := by
    obtain ⟨_, opcode, format, _, _, columns', byte, spells⟩ :=
      valid.described line here (filled (by simp [columns]))
    rw [columns] at columns'
    cases columns'
    exact ⟨opcode, format, byte, spells⟩
  have apart_from {other : List Char} (former : other ∈ above) : Apart other line :=
    (List.pairwise_append.1 valid.apart).2.2 other former line List.mem_cons_self
  cases breaks with
  | columns word count =>
    obtain ⟨_, _, _, _, _, columns, _⟩ := valid.described line here (filled word)
    rw [columns] at count
    exact count rfl
  | opcode columns unread =>
    obtain ⟨opcode, _, byte, _⟩ := columns_of columns
    exact unread opcode byte
  | format columns _ unread =>
    obtain ⟨_, format, _, spells⟩ := columns_of columns
    exact unread format spells
  | mnemonic describes taken =>
    rcases taken with ⟨d, name⟩ | ⟨opcode, other, former, mnemonic, format, describes', same⟩
    · exact valid.undirected line here describes d name
    · exact (apart_from former describes' describes).1 same
  | owner describes _ owned =>
    obtain ⟨other, former, mnemonic, format, describes', _⟩ := owned
    exact (apart_from former describes' describes).2 rfl

theorem holds_of_ofTable {text : String} (loaded : ofTable text = .ok c) :
    Holds (Text.lines text.toList) c := by
  rcases registerLines_cases holds_empty (Text.lines text.toList) with
    ⟨c', done, holds⟩ | ⟨_, _, _, e, stopped, _⟩
  · cases loaded.symm.trans done
    exact holds
  · cases loaded.symm.trans stopped

theorem ofTable_of_valid {text : String} (valid : Valid (Text.lines text.toList)) :
    ∃ c, ofTable text = .ok c := by
  rcases registerLines_cases holds_empty (Text.lines text.toList) with
    ⟨c', done, _⟩ | ⟨front, line, below, e, _, parts, _, breaks⟩
  · exact ⟨c', done⟩
  · rw [parts] at valid
    exact absurd valid breaks.not_valid

theorem registerLines_append {number : Nat} {front : List (List Char)}
    (h : registerLines number c front = .ok c') (rest : List (List Char)) :
    registerLines number c (front ++ rest) = registerLines (number + front.length) c' rest := by
  induction front generalizing c number with
  | nil =>
    cases h
    rfl
  | cons line front ih =>
    simp only [registerLines, List.cons_append] at h ⊢
    split at h
    · rename_i next read
      simp only [ih h, List.length_cons, Nat.add_assoc, Nat.add_comm 1]
    · cases h

/-- The error of a table is that of the first line which breaks a rule against the lines above it. -/
theorem ofTable_error_iff {text : String} : ofTable text = .error e ↔
    ∃ above line below, Text.lines text.toList = above ++ line :: below ∧ Valid above ∧
      Breaks above line e := by
  unfold ofTable
  constructor
  · intro stopped
    rcases registerLines_cases holds_empty (Text.lines text.toList) with
      ⟨c', done, _⟩ | ⟨front, line, below, e', stopped', parts, valid, breaks⟩
    · cases stopped.symm.trans done
    · cases stopped.symm.trans stopped'
      exact ⟨front, line, below, parts, valid, breaks⟩
  · rintro ⟨above, line, below, parts, valid, breaks⟩
    rcases registerLines_cases holds_empty above with
      ⟨c, done, holds⟩ | ⟨front, bad, rest, _, _, rfl, _, broken⟩
    · have refused := (registerLine_error_iff holds).2 breaks
      have read := registerLines_append done (line :: below)
      rw [List.length_nil, Nat.zero_add] at read
      rw [List.nil_append, Nat.add_comm] at refused
      rw [parts, read, registerLines, refused]
    · exact absurd valid broken.not_valid

/-! ### The order of lines -/

theorem Valid.perm (valid : Valid above) (same : lines.Perm above) : Valid lines where
  described := fun line here => valid.described line (same.mem_iff.1 here)
  apart := by
    refine (same.pairwise_iff ?_).2 valid.apart
    intro a b apart mnemonic opcode format mnemonic' opcode' format' describes describes'
    obtain ⟨names, opcodes⟩ := apart describes' describes
    exact ⟨names.symm, opcodes.symm⟩
  undirected := fun line here => valid.undirected line (same.mem_iff.1 here)

/-- Catalogs of the same lines in another order answer alike. -/
theorem Holds.same_answers (holds : Holds above c) (holds' : Holds lines c')
    (same : lines.Perm above) : (∀ key, c'.find? key = c.find? key) ∧
      ∀ opcode, c'.mnemonicOf? opcode = c.mnemonicOf? opcode := by
  constructor
  · intro key
    refine Option.ext fun i => ?_
    rw [holds.sound.find?_eq_some_iff, holds'.sound.find?_eq_some_iff, holds.entries, holds'.entries]
    simp only [same.mem_iff]
  · intro opcode
    refine Option.ext fun key => ?_
    rw [holds.mnemonicOf?_eq_some_iff, holds'.mnemonicOf?_eq_some_iff]
    simp only [Owns, same.mem_iff]

theorem lookup_congr (same : ∀ key, c'.find? key = c.find? key) (column : String) :
    c'.lookup column = c.lookup column := by
  simp only [lookup, same]

/-- A table loads exactly if it is valid. Its catalog has an instruction for each line that is not blank,
found by its opcode, and another order of the lines gives a catalog that answers alike. A table that does
not load is refused for the first line that breaks a rule. -/
theorem ofTable_exact (text : String) :
    ((∃ c, ofTable text = .ok c) ↔ Valid (Text.lines text.toList)) ∧
    (∀ c, ofTable text = .ok c →
      c.size = ((Text.lines text.toList).countP fun line => line.any fun ch => !Text.isBlank ch) ∧
      (∀ opcode key, c.mnemonicOf? opcode = some key ↔
        Owns (Text.lines text.toList) opcode key) ∧
      ∀ other : String, (Text.lines other.toList).Perm (Text.lines text.toList) →
        ∃ c', ofTable other = .ok c' ∧ (∀ column, c'.lookup column = c.lookup column) ∧
          ∀ opcode, c'.mnemonicOf? opcode = c.mnemonicOf? opcode) ∧
    ∀ e, ofTable text = .error e ↔
      ∃ above line below, Text.lines text.toList = above ++ line :: below ∧ Valid above ∧
        Breaks above line e := by
  refine ⟨⟨?_, ofTable_of_valid⟩, fun c loaded => ?_, fun e => ofTable_error_iff⟩
  · rintro ⟨c, loaded⟩
    exact (holds_of_ofTable loaded).valid
  · have holds := holds_of_ofTable loaded
    refine ⟨holds.size, fun opcode key => holds.mnemonicOf?_eq_some_iff, fun other same => ?_⟩
    obtain ⟨c', loaded'⟩ := ofTable_of_valid (holds.valid.perm same)
    obtain ⟨found, owners⟩ := holds.same_answers (holds_of_ofTable loaded') same
    exact ⟨c', loaded', lookup_congr found, owners⟩

/-- A table and its lines in another order; a table whose third line writes the opcode of the first in
another way. -/
theorem ofTable_exact_reordered :
    let c : Catalog := ⟨[.machine "LDA" 0x00 .three, .machine "STL" 0x14 .three]⟩
    (ofTable "lda 00 3\n\nSTL\t14 3/4\n" = .ok c ∧ c.size = 2 ∧
      ∃ c', ofTable "STL\t14 3/4\nlda 00 3\n\n" = .ok c' ∧
        c'.lookup "+stl" = some (.machine "STL" 0x14 .four)) ∧
    ofTable "lda 4 3\n\nSTL +04 3\nLDA 4 3" = .error (.duplicateOpcode "STL" 0x04 "LDA") ∧
    ∃ above line below, Text.lines "lda 4 3\n\nSTL +04 3\nLDA 4 3".toList = above ++ line :: below ∧
      Valid above ∧ Breaks above line (.duplicateOpcode "STL" 0x04 "LDA") := by
  have loaded : ofTable "lda 00 3\n\nSTL\t14 3/4\n" =
    .ok ⟨[.machine "LDA" 0x00 .three, .machine "STL" 0x14 .three]⟩ := rfl
  have stopped : ofTable "lda 4 3\n\nSTL +04 3\nLDA 4 3" =
    .error (.duplicateOpcode "STL" 0x04 "LDA") := rfl
  obtain ⟨size, _, reordered⟩ := (ofTable_exact _).2.1 _ loaded
  obtain ⟨c', loaded', found, _⟩ := reordered "STL\t14 3/4\nlda 00 3\n\n" (by decide)
  exact ⟨⟨loaded, size, c', loaded', (found "+stl").trans rfl⟩, stopped,
    ((ofTable_exact _).2.2 _).1 stopped⟩

end Catalog

end SicXe
