import Mathlib.Data.Set.Card
import SicXe.Proofs.Catalog.Index
import SicXe.Proofs.Symbol.Label

/-!
# The law of catalogs

However a catalog is made and whatever is registered in it, directives stand for themselves, mnemonics and
opcodes lead to each other, registration adds one entry or changes nothing, and a plus sign before a
column asks for format 4 (`Reached.lawful`). The containers in step with a catalog answer as it does.
-/
namespace SicXe.Catalog

open Instruction (Directive Format)

variable {c : Catalog} {mnemonic : String} {opcode : UInt8} {format : Format}

/-- The mnemonics of machine instructions. -/
def keys (c : Catalog) : Set String := {key | ∃ i, c.find? key = some i ∧ i.directive? = none}

/-- The opcodes that belong to a mnemonic. -/
def owned (c : Catalog) : Set UInt8 := {opcode | (c.mnemonicOf? opcode).isSome = true}

/-- What a registration does to a catalog and to the containers in step with it. -/
structure Registers (c : Catalog) (mnemonic : String) (opcode : UInt8) (format : Format) : Prop where
  fails : (∃ e, c.register mnemonic opcode format = .error e) ↔
    (c.find? (Instruction.upper mnemonic)).isSome = true ∨ (c.mnemonicOf? opcode).isSome = true
  unchanged : ∀ e, c.register mnemonic opcode format = .error e →
    c.after mnemonic opcode format = c ∧
      ∀ x, InStep c x → x.register mnemonic opcode format = (.error e, x)
  size : ∀ c', c.register mnemonic opcode format = .ok c' → c'.size = c.size + 1
  entry : ∀ c', c.register mnemonic opcode format = .ok c' → ∀ key, c'.find? key =
    if key = Instruction.upper mnemonic
      then some (.machine (Instruction.upper mnemonic) opcode format) else c.find? key
  owner : ∀ c', c.register mnemonic opcode format = .ok c' → ∀ other, c'.mnemonicOf? other =
    if other = opcode then some (Instruction.upper mnemonic) else c.mnemonicOf? other

/-- What a plus sign before a column does to the answer of `lookup`. -/
structure Extends (c : Catalog) (column : String) : Prop where
  machine : ∀ mnemonic opcode format, c.lookup column = some (.machine mnemonic opcode format) →
    c.lookup ("+" ++ column) = some (.machine mnemonic opcode .four)
  directive : ∀ d, c.lookup column = some (.directive d) →
    c.lookup ("+" ++ column) = some (.directive d)
  absent : c.lookup ("+" ++ column) = none ↔ c.lookup column = none

/-- Directives are themselves, mnemonics and opcodes lead to each other, and two containers answer as the
catalog does. -/
structure Lawful (c : Catalog) : Prop where
  directives : ∀ d : Directive, c.find? d.name = some (.directive d) ∧
    (Instruction.directive d).format = .unsized
  machines : ∀ key i, c.find? key = some i → (∃ d : Directive, d.name = key ∧ i = .directive d) ∨
    ∃ opcode format, i = .machine key opcode format ∧ format ≠ .unsized ∧
      c.mnemonicOf? opcode = some key
  owners : ∀ opcode key, c.mnemonicOf? opcode = some key →
    ∃ format, c.find? key = some (.machine key opcode format)
  bijection : Set.BijOn c.mnemonicOf? c.owned (some '' c.keys)
  size : c.size = c.keys.ncard
  registers : ∀ mnemonic opcode format, c.Registers mnemonic opcode format
  extended : ∀ column : String, (∀ ch ∈ column.toList, Text.isBlank ch = false) →
    column.toList.head? ≠ some '+' → c.Extends column
  containers : ∃ x, InStep c x
  answers : ∀ x, InStep c x → (∀ key, x.find? key = c.find? key) ∧
    (∀ opcode, x.mnemonicOf? opcode = c.mnemonicOf? opcode) ∧ x.size = c.size

theorem Sound.registers (sound : c.Sound) (mnemonic : String) (opcode : UInt8) (format : Format) :
    c.Registers mnemonic opcode format where
  fails := register_fails_iff
  unchanged e h := by
    refine ⟨by rw [Catalog.after, h], fun x step => ?_⟩
    rw [step.eq.2, Index.register_of sound, h]
  size c' h := by
    obtain ⟨_, _, rfl⟩ := register_ok_iff.1 h
    simp [size]
  entry c' h := find?_of_register h
  owner c' h := mnemonicOf?_of_register h

theorem Sound.format_of_find? (sound : c.Sound) {key : String}
    (h : c.find? key = some (.machine mnemonic opcode format)) : format ≠ .unsized := by
  rcases sound.find?_eq_some_iff.1 h with ⟨d, _, same⟩ | ⟨member, _⟩
  · cases same
  · exact (sound.machine _ member).2.1

/-- A column without blanks that starts with no plus sign is looked up as it stands. -/
theorem lookup_of_plain {column : String} (visible : ∀ ch ∈ column.toList, Text.isBlank ch = false)
    (plain : column.toList.head? ≠ some '+') :
    (c.lookup column = if column.toList.isEmpty then none else c.find? (Instruction.upper column)) ∧
      c.lookup ("+" ++ column) = (c.lookup column).map Instruction.extend := by
  have visible' : ∀ ch ∈ '+' :: column.toList, Text.isBlank ch = false := by
    intro ch member
    rcases List.mem_cons.1 member with rfl | later
    · rfl
    · exact visible ch later
  have signed : ("+" ++ column).toList = '+' :: column.toList := by
    rw [String.toList_append]
    rfl
  have unsigned : splitExtension column.toList = (false, column.toList) := by
    unfold splitExtension
    split
    · rename_i base starts
      exact absurd (by rw [starts]; rfl) plain
    · rfl
  have extended : splitExtension ('+' :: column.toList) = (true, column.toList) := rfl
  unfold lookup
  rw [signed, Text.trim_of_no_blank visible, Text.trim_of_no_blank visible', unsigned, extended]
  dsimp only
  rw [String.ofList_toList]
  refine ⟨by split <;> rfl, ?_⟩
  split
  · rfl
  · rfl

theorem Sound.extends (sound : c.Sound) {column : String}
    (visible : ∀ ch ∈ column.toList, Text.isBlank ch = false)
    (plain : column.toList.head? ≠ some '+') : c.Extends column := by
  obtain ⟨found, extended⟩ := lookup_of_plain (c := c) visible plain
  refine ⟨fun mnemonic opcode format here => ?_, fun d here => ?_, ?_⟩
  · have sized : format ≠ .unsized := by
      rw [found] at here
      split at here
      · cases here
      · exact sound.format_of_find? here
    rw [extended, here]
    cases format with
    | unsized => exact absurd rfl sized
    | _ => rfl
  · rw [extended, here]
    rfl
  · rw [extended, Option.map_eq_none_iff]

theorem Sound.mem_keys_iff (sound : c.Sound) {key : String} :
    key ∈ c.keys ↔ key ∈ c.entries.map Instruction.mnemonic := by
  simp only [keys, Set.mem_ofPred_eq, List.mem_map, sound.find?_eq_some_iff]
  constructor
  · rintro ⟨i, ⟨d, _, rfl⟩ | entry, machine⟩
    · cases machine
    · exact ⟨i, entry⟩
  · rintro ⟨i, member, same⟩
    exact ⟨i, Or.inr ⟨member, same⟩, (sound.machine i member).1⟩

theorem Sound.size_eq_ncard (sound : c.Sound) : c.size = c.keys.ncard := by
  have keys : c.keys = ((c.entries.map Instruction.mnemonic).toFinset : Set String) := by
    ext key
    rw [sound.mem_keys_iff, List.coe_toFinset]
    rfl
  rw [keys, Set.ncard_coe_finset, List.toFinset_card_of_nodup sound.mnemonics, List.length_map]
  rfl

/-- The entry of a mnemonic has the opcode that the mnemonic belongs to. -/
theorem Sound.find?_of_mnemonicOf? (sound : c.Sound) {key : String}
    (h : c.mnemonicOf? opcode = some key) :
    ∃ format, c.find? key = some (.machine key opcode format) := by
  obtain ⟨format, member⟩ := sound.mnemonicOf?_eq_some_iff.1 h
  exact ⟨format, sound.find?_eq_some_iff.2 (Or.inr ⟨member, rfl⟩)⟩

/-- The mnemonic of an entry is the one that its opcode belongs to. -/
theorem Sound.mnemonicOf?_of_entry (sound : c.Sound) {i : Instruction} (member : i ∈ c.entries) :
    ∃ opcode format, i = .machine i.mnemonic opcode format ∧ format ≠ .unsized ∧
      c.mnemonicOf? opcode = some i.mnemonic := by
  obtain ⟨opcode, format, shape, sized⟩ := sound.eq_machine member
  exact ⟨opcode, format, shape, sized, sound.mnemonicOf?_eq_some_iff.2 ⟨format, shape ▸ member⟩⟩

theorem Sound.bijection (sound : c.Sound) : Set.BijOn c.mnemonicOf? c.owned (some '' c.keys) := by
  refine ⟨fun opcode owned => ?_, fun opcode owned opcode' _ same => ?_, ?_⟩
  · obtain ⟨key, here⟩ := Option.isSome_iff_exists.1 owned
    obtain ⟨format, found⟩ := sound.find?_of_mnemonicOf? here
    exact ⟨key, ⟨_, found, rfl⟩, here.symm⟩
  · obtain ⟨key, here⟩ := Option.isSome_iff_exists.1 owned
    obtain ⟨format, found⟩ := sound.find?_of_mnemonicOf? here
    obtain ⟨format', found'⟩ := sound.find?_of_mnemonicOf? (same.symm.trans here)
    cases found.symm.trans found'
    rfl
  · rintro _ ⟨key, known, rfl⟩
    obtain ⟨i, member, rfl⟩ := List.mem_map.1 (sound.mem_keys_iff.1 known)
    obtain ⟨opcode, format, _, _, owner⟩ := sound.mnemonicOf?_of_entry member
    exact ⟨opcode, Option.isSome_iff_exists.2 ⟨_, owner⟩, owner⟩

/-- Whatever is registered, with success or not, in a catalog that was made in any of the three ways: the
law of catalogs holds. -/
theorem Reached.lawful (reached : c.Reached) : c.Lawful := by
  have sound := reached.sound
  refine ⟨fun d => ⟨c.find?_directive d, rfl⟩, fun key i here => ?_,
    fun opcode key here => sound.find?_of_mnemonicOf? here, sound.bijection, sound.size_eq_ncard,
    sound.registers,
    fun column visible plain => sound.extends visible plain, reached.inStep, fun x step => ?_⟩
  · rcases sound.find?_eq_some_iff.1 here with directive | ⟨member, rfl⟩
    · exact Or.inl directive
    · exact Or.inr (sound.mnemonicOf?_of_entry member)
  · obtain ⟨_, rfl⟩ := step.eq
    exact ⟨Index.find?_of c, Index.mnemonicOf?_of sound, Index.size_of sound⟩

/-- The first registration clashes with a mnemonic of the table, the second with an opcode. -/
theorem lawful_registered :
    let table : Catalog := ⟨[.machine "FIX" 0xC4 .one, .machine "LDA" 0x00 .three]⟩
    let c := ((table.after "lda" 0x10 .three).after "STA" 0xC4 .three).after "sta" 0x0C .three
    ofTable "FIX c4 1\n\nlda 00 3/4" = .ok table ∧
      c.entries = table.entries ++ [.machine "STA" 0x0C .three] ∧ c.Lawful := by
  have loaded : ofTable "FIX c4 1\n\nlda 00 3/4" =
    .ok ⟨[.machine "FIX" 0xC4 .one, .machine "LDA" 0x00 .three]⟩ := rfl
  refine ⟨loaded, rfl, ?_⟩
  have sized : Format.three ≠ .unsized := by decide
  have clashed := ((Reached.loaded loaded).registered "lda" 0x10 sized).registered "STA" 0xC4 sized
  exact (clashed.registered "sta" 0x0C sized).lawful

end SicXe.Catalog
