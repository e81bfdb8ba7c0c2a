import SicXe.Catalog.Standard
import SicXe.Catalog.Table
import SicXe.Proofs.Keys

/-!
# What registration keeps true of a catalog

The entries of a catalog are machine instructions with a format; no two have one mnemonic or one opcode,
and none has the name of a directive (`Sound`). The standard catalog is sound, and registration, which a
table is loaded by, keeps a catalog so. In a sound catalog a mnemonic leads to the opcode that leads back
to it (`find?_eq_some_iff`, `mnemonicOf?_eq_some_iff`).
-/
namespace SicXe

open Instruction (Directive Format)

namespace Catalog

/-- What registration keeps true. -/
structure Sound (c : Catalog) : Prop where
  machine : ∀ i ∈ c.entries, i.directive? = none ∧ i.format ≠ .unsized ∧
    ∀ d ∈ Directive.all, d.name ≠ i.mnemonic
  mnemonics : (c.entries.map Instruction.mnemonic).Nodup
  opcodes : (c.entries.map Instruction.opcode?).Nodup

theorem sound_empty : Sound .empty := ⟨by simp [empty], List.nodup_nil, List.nodup_nil⟩

theorem sound_standard : Sound .standard where
  machine := by decide +kernel
  mnemonics := by decide +kernel
  opcodes := nodup_opcodes_standard

variable {c c' : Catalog} {mnemonic key : String} {opcode : UInt8} {format : Format}

theorem Sound.eq_machine (sound : c.Sound) {i : Instruction} (member : i ∈ c.entries) :
    ∃ opcode format, i = .machine i.mnemonic opcode format ∧ format ≠ .unsized := by
  obtain ⟨not_directive, sized, _⟩ := sound.machine i member
  cases i with
  | machine mnemonic opcode format => exact ⟨opcode, format, rfl, sized⟩
  | directive d => cases not_directive

/-! ### What a sound catalog finds -/

theorem find?_directive (c : Catalog) (d : Directive) : c.find? d.name = some (.directive d) := by
  cases d <;> rfl

/-- A key is the name of a directive, or it is looked for among the entries. -/
theorem find?_cases (c : Catalog) (key : String) :
    (∃ d : Directive, d.name = key ∧ c.find? key = some (.directive d)) ∨
      ((∀ d ∈ Directive.all, d.name ≠ key) ∧
        c.find? key = c.entries.find? fun i => i.mnemonic = key) := by
  unfold find?
  cases found : Directive.all.find? (fun d => d.name = key) with
  | some d => exact Or.inl ⟨d, by simpa using List.find?_some found, rfl⟩
  | none => exact Or.inr ⟨by simpa using List.find?_eq_none.1 found, rfl⟩

theorem Sound.find?_eq_some_iff (sound : c.Sound) {i : Instruction} :
    c.find? key = some i ↔
      (∃ d : Directive, d.name = key ∧ i = .directive d) ∨ (i ∈ c.entries ∧ i.mnemonic = key) := by
  rcases c.find?_cases key with ⟨d, rfl, found⟩ | ⟨other, eq⟩
  · rw [found]
    constructor
    · intro same
      exact Or.inl ⟨d, rfl, (Option.some.inj same).symm⟩
    · rintro (⟨d', name, rfl⟩ | ⟨member, same⟩)
      · rw [← found, ← name, c.find?_directive]
      · exact absurd same.symm ((sound.machine i member).2.2 d d.mem_all)
  · rw [eq, find?_eq_some_iff_of_nodup sound.mnemonics]
    constructor
    · exact Or.inr
    · rintro (⟨d, name, _⟩ | entry)
      · exact absurd name (other d d.mem_all)
      · exact entry

theorem Sound.mnemonicOf?_eq_some_iff (sound : c.Sound) :
    c.mnemonicOf? opcode = some key ↔ ∃ format, .machine key opcode format ∈ c.entries := by
  unfold mnemonicOf?
  simp only [Option.map_eq_some_iff, find?_eq_some_iff_of_nodup sound.opcodes]
  constructor
  · rintro ⟨i, ⟨member, owns⟩, rfl⟩
    obtain ⟨own, format, shape, _⟩ := sound.eq_machine member
    rw [shape] at owns member
    cases owns
    exact ⟨format, member⟩
  · rintro ⟨format, member⟩
    exact ⟨_, ⟨member, rfl⟩, rfl⟩

theorem mnemonicOf?_eq_none_iff (c : Catalog) :
    c.mnemonicOf? opcode = none ↔ ∀ i ∈ c.entries, i.opcode? ≠ some opcode := by
  unfold mnemonicOf?
  simp

theorem find?_eq_none_iff (c : Catalog) :
    c.find? key = none ↔
      (∀ d ∈ Directive.all, d.name ≠ key) ∧ ∀ i ∈ c.entries, i.mnemonic ≠ key := by
  rcases c.find?_cases key with ⟨d, rfl, found⟩ | ⟨other, eq⟩
  · rw [found]
    simp only [reduceCtorEq, false_iff, not_and]
    exact fun absent => absurd rfl (absent d d.mem_all)
  · rw [eq]
    simp only [List.find?_eq_none, decide_eq_true_eq]
    exact ⟨fun absent => ⟨other, absent⟩, fun absent => absent.2⟩

/-! ### Registration -/

theorem register_ok_iff : c.register mnemonic opcode format = .ok c' ↔
    c.find? (Instruction.upper mnemonic) = none ∧ c.mnemonicOf? opcode = none ∧
      c' = ⟨c.entries ++ [.machine (Instruction.upper mnemonic) opcode format]⟩ := by
  dsimp only [register]
  cases known : c.find? (Instruction.upper mnemonic) with
  | some i => simp
  | none =>
    cases owned : c.mnemonicOf? opcode with
    | some owner => simp
    | none => simp [eq_comm]

/-- Registration fails exactly on a clash. -/
theorem register_fails_iff : (∃ e, c.register mnemonic opcode format = .error e) ↔
    (c.find? (Instruction.upper mnemonic)).isSome = true ∨ (c.mnemonicOf? opcode).isSome = true := by
  dsimp only [register]
  cases known : c.find? (Instruction.upper mnemonic) with
  | some i => simp
  | none => cases owned : c.mnemonicOf? opcode <;> simp

theorem Sound.register (sound : c.Sound) (sized : format ≠ .unsized)
    (h : c.register mnemonic opcode format = .ok c') : c'.Sound := by
  obtain ⟨unknown, unowned, rfl⟩ := register_ok_iff.1 h
  obtain ⟨no_directive, no_entry⟩ := c.find?_eq_none_iff.1 unknown
  have no_owner := c.mnemonicOf?_eq_none_iff.1 unowned
  refine ⟨fun i member => ?_, ?_, ?_⟩
  · rcases List.mem_append.1 member with former | new
    · exact sound.machine i former
    · cases List.mem_singleton.1 new
      exact ⟨rfl, sized, no_directive⟩
  · rw [List.map_append, List.map_singleton, ← List.concat_eq_append, List.nodup_concat]
    refine ⟨fun clash => ?_, sound.mnemonics⟩
    obtain ⟨i, member, same⟩ := List.mem_map.1 clash
    exact no_entry i member same
  · rw [List.map_append, List.map_singleton, ← List.concat_eq_append, List.nodup_concat]
    refine ⟨fun clash => ?_, sound.opcodes⟩
    obtain ⟨i, member, same⟩ := List.mem_map.1 clash
    exact no_owner i member same

/-- The one answer about mnemonics that registration changes. -/
theorem find?_of_register (h : c.register mnemonic opcode format = .ok c') (key : String) :
    c'.find? key = if key = Instruction.upper mnemonic
      then some (.machine (Instruction.upper mnemonic) opcode format) else c.find? key := by
  obtain ⟨unknown, _, rfl⟩ := register_ok_iff.1 h
  obtain ⟨no_directive, no_entry⟩ := c.find?_eq_none_iff.1 unknown
  unfold find?
  split
  · rename_i d name
    have same : d.name = key := by simpa using List.find?_some name
    rw [if_neg (fun new => no_directive d d.mem_all (same.trans new))]
  · dsimp only
    rw [List.find?_append]
    split
    · rename_i new
      subst new
      have absent : c.entries.find? (fun i => i.mnemonic = Instruction.upper mnemonic) = none := by
        simpa using no_entry
      rw [absent]
      simp [Instruction.mnemonic]
    · rename_i other
      simp [Instruction.mnemonic, Ne.symm other]

/-- The one answer about opcodes that registration changes. -/
theorem mnemonicOf?_of_register (h : c.register mnemonic opcode format = .ok c') (other : UInt8) :
    c'.mnemonicOf? other =
      if other = opcode then some (Instruction.upper mnemonic) else c.mnemonicOf? other := by
  obtain ⟨_, unowned, rfl⟩ := register_ok_iff.1 h
  have no_owner := c.mnemonicOf?_eq_none_iff.1 unowned
  unfold mnemonicOf?
  dsimp only
  rw [List.find?_append]
  split
  · rename_i same
    subst same
    have absent : c.entries.find? (fun i => i.opcode? = some other) = none := by
      simpa using no_owner
    rw [absent]
    simp [Instruction.opcode?, Instruction.mnemonic]
  · rename_i different
    simp [Instruction.opcode?, Ne.symm different]

/-! ### Tables -/

/-- Whether a line of a table is the entry of a mnemonic with this opcode and format. -/
def IsEntry (line : List Char) (mnemonic : String) (opcode : UInt8) (format : Format) : Prop :=
  ∃ opcodeText formatText, Text.words line = [mnemonic.toList, opcodeText, formatText] ∧
    Text.byte? 16 opcodeText = some opcode ∧ Format.ofText? (String.ofList formatText) = some format

theorem IsEntry.sized {line : List Char} (entry : IsEntry line mnemonic opcode format) :
    format ≠ .unsized := by
  obtain ⟨_, _, _, _, read⟩ := entry
  rintro rfl
  exact Format.ofText?_ne_unsized _ read

/-- A line that is accepted is blank, or its entry is registered. -/
theorem registerLine_ok {number : Nat} {line : List Char}
    (h : c.registerLine number line = .ok c') :
    (Text.words line = [] ∧ c' = c) ∨ ∃ mnemonic opcode format, IsEntry line mnemonic opcode format ∧
      c.register mnemonic opcode format = .ok c' := by
  dsimp only [registerLine] at h
  split at h
  · rename_i blank
    cases h
    exact Or.inl ⟨blank, rfl⟩
  · rename_i mnemonic _ _ columns
    split at h
    · cases h
    · rename_i opcode byte
      split at h
      · cases h
      · rename_i format read
        refine Or.inr ⟨_, opcode, format, ⟨_, _, ?_, byte, read⟩, h⟩
        rw [columns, String.toList_ofList]
  · cases h

/-- What registration keeps true holds of a table's catalog. -/
theorem ofTable_induction {motive : Catalog → Prop} (first : motive .empty)
    (step : ∀ {c c' mnemonic opcode format}, motive c → format ≠ .unsized →
      c.register mnemonic opcode format = .ok c' → motive c')
    {text : String} (h : ofTable text = .ok c) : motive c := by
  have lines (lines : List (List Char)) : ∀ {number : Nat} {c c' : Catalog}, motive c →
      registerLines number c lines = .ok c' → motive c' := by
    induction lines with
    | nil =>
      intro number c c' held h
      cases h
      exact held
    | cons line rest ih =>
      intro number c c' held h
      unfold registerLines at h
      split at h
      · rename_i next read
        rcases registerLine_ok read with ⟨_, rfl⟩ | ⟨mnemonic, opcode, format, entry, registered⟩
        · exact ih held h
        · exact ih (step held entry.sized registered) h
      · cases h
  exact lines _ first h

/-! ### All catalogs -/

/-- The catalog after a registration. One that fails leaves the catalog as it was. -/
def after (c : Catalog) (mnemonic : String) (opcode : UInt8) (format : Format) : Catalog :=
  match c.register mnemonic opcode format with
  | .ok c' => c'
  | .error _ => c

/-- The catalogs that any registrations lead to, from the directives, the standard catalog or a table. -/
inductive Reached : Catalog → Prop where
  | empty : Reached .empty
  | standard : Reached .standard
  | loaded {text : String} {c : Catalog} (h : ofTable text = .ok c) : Reached c
  | registered {c : Catalog} (before : Reached c) (mnemonic : String) (opcode : UInt8)
      {format : Format} (sized : format ≠ .unsized) : Reached (c.after mnemonic opcode format)

theorem Sound.after (sound : c.Sound) (mnemonic : String) (opcode : UInt8)
    (sized : format ≠ .unsized) : (c.after mnemonic opcode format).Sound := by
  unfold Catalog.after
  split
  · rename_i c' registered
    exact sound.register sized registered
  · exact sound

theorem Reached.sound (reached : c.Reached) : c.Sound := by
  induction reached with
  | empty => exact sound_empty
  | standard => exact sound_standard
  | loaded h =>
    exact ofTable_induction sound_empty (fun sound sized registered => sound.register sized registered) h
  | registered before mnemonic opcode sized ih => exact ih.after mnemonic opcode sized

end Catalog

end SicXe
