import SicXe.Proofs.Catalog.Law
import SicXe.Proofs.Source.Case

/-!
# Looking up the entries of a table

An entry that was registered stays, so at the end of a table all its entries are there
(`find?_of_entry`). A column is looked up without its outer blanks and as capitals, which a word of a table
has not and is stored in: an entry is found by its mnemonic in any case (`ofTable_lookup`). A plus sign
before a column is taken for the wish for format 4, in a mnemonic of a table it is a character like any
other; so no column leads to the entry of a mnemonic with a plus sign. Only ASCII letters have two cases
(`entries_out_of_reach`).
-/
namespace SicXe.Catalog

variable {c c' : Catalog}

/-- What is found is found after every further line. -/
theorem find?_of_registerLine {number : Nat} {line : List Char}
    (h : c.registerLine number line = .ok c') {key : String} {i : Instruction}
    (found : c.find? key = some i) : c'.find? key = some i := by
  rcases registerLine_ok h with ⟨_, rfl⟩ | ⟨mnemonic, opcode, format, _, registered⟩
  · exact found
  · have absent := (register_ok_iff.1 registered).1
    have other : key ≠ Instruction.upper mnemonic := by
      rintro rfl
      rw [found] at absent
      cases absent
    rw [find?_of_register registered, if_neg other, found]

theorem find?_of_registerLines {lines : List (List Char)} {number : Nat}
    (h : registerLines number c lines = .ok c') {key : String} {i : Instruction}
    (found : c.find? key = some i) : c'.find? key = some i := by
  induction lines generalizing c number with
  | nil =>
    cases h
    exact found
  | cons line rest ih =>
    unfold registerLines at h
    split at h
    · rename_i next read
      exact ih h (find?_of_registerLine read found)
    · cases h

/-- Every line of a table that loads is blank, or its entry is there under the mnemonic in capitals. -/
theorem find?_of_entry {lines : List (List Char)} {number : Nat}
    (h : registerLines number c lines = .ok c') {line : List Char} (member : line ∈ lines) :
    Text.words line = [] ∨ ∃ mnemonic opcode format, IsEntry line mnemonic opcode format ∧
      c'.find? (Instruction.upper mnemonic) =
        some (.machine (Instruction.upper mnemonic) opcode format) := by
  induction lines generalizing c number with
  | nil => cases member
  | cons first rest ih =>
    unfold registerLines at h
    split at h
    · rename_i next read
      rcases List.mem_cons.1 member with rfl | later
      · rcases registerLine_ok read with ⟨blank, _⟩ | ⟨mnemonic, opcode, format, entry, registered⟩
        · exact Or.inl blank
        · refine Or.inr ⟨mnemonic, opcode, format, entry, find?_of_registerLines h ?_⟩
          rw [find?_of_register registered, if_pos rfl]
      · exact ih h later
    · cases h

/-- Of a table that loads, every line that is not blank is an entry, and a column that is its mnemonic in
any case is looked up as the instruction of the entry, unless the mnemonic starts with a plus sign. -/
theorem ofTable_lookup {text : String} (loaded : ofTable text = .ok c) {line : List Char}
    (member : line ∈ Text.lines text.toList) (filled : ∃ ch ∈ line, Text.isBlank ch = false) :
    ∃ mnemonic opcode format, IsEntry line mnemonic opcode format ∧
      (mnemonic.toList.head? ≠ some '+' →
        ∀ column, Instruction.upper column = Instruction.upper mnemonic →
          c.lookup column = some (.machine (Instruction.upper mnemonic) opcode format)) := by
  rcases find?_of_entry loaded member with blank | ⟨mnemonic, opcode, format, entry, found⟩
  · obtain ⟨ch, inside, visible⟩ := filled
    rw [(Text.words_eq_nil_iff line).1 blank ch inside] at visible
    cases visible
  · refine ⟨mnemonic, opcode, format, entry, fun plain column same => ?_⟩
    obtain ⟨_, _, columns, _⟩ := entry
    have word : mnemonic.toList ∈ Text.words line := columns ▸ List.mem_cons_self ..
    have not_empty : mnemonic.toList.isEmpty = false := by
      rw [List.isEmpty_eq_false_iff]
      exact Text.ne_nil_of_mem_quotedWords _ line _ word
    have own : c.lookup mnemonic = c.find? (Instruction.upper mnemonic) := by
      rw [(lookup_of_plain (fun ch => Text.isBlank_of_mem_words word) plain).1, not_empty]
      rfl
    calc c.lookup column
        = c.lookup (Instruction.upper column) := (lookup_upper c column).symm
      _ = c.lookup mnemonic := by rw [same, lookup_upper]
      _ = some (.machine (Instruction.upper mnemonic) opcode format) := by rw [own, found]

/-- The second entry has a signed opcode and the format of an instruction that may be extended. -/
theorem ofTable_lookup_mixed :
    let text := "  Fix\tc4 1 \n\nlda +0 3/4"
    let c : Catalog := ⟨[.machine "FIX" 0xC4 .one, .machine "LDA" 0x00 .three]⟩
    ofTable text = .ok c ∧ "lda +0 3/4".toList ∈ Text.lines text.toList ∧
      c.lookup "LdA" = some (.machine "LDA" 0x00 .three) := by
  have loaded : ofTable "  Fix\tc4 1 \n\nlda +0 3/4" =
    .ok ⟨[.machine "FIX" 0xC4 .one, .machine "LDA" 0x00 .three]⟩ := rfl
  have member : "lda +0 3/4".toList ∈ Text.lines "  Fix\tc4 1 \n\nlda +0 3/4".toList := by decide
  refine ⟨loaded, member, ?_⟩
  obtain ⟨mnemonic, opcode, format, ⟨_, _, columns, byte, read⟩, found⟩ :=
    ofTable_lookup loaded member ⟨'l', by decide, by decide⟩
  have words : Text.words "lda +0 3/4".toList = ["lda".toList, "+0".toList, "3/4".toList] := rfl
  rw [words] at columns
  obtain ⟨name, rfl, rfl⟩ : "lda".toList = mnemonic.toList ∧ _ ∧ _ := by simpa using columns
  cases byte
  cases read
  obtain rfl := String.toList_inj.1 name
  exact found (by decide) "LdA" rfl

/-- Two tables that load. The only entry of the first is not found under its own mnemonic, that of the
second not under its mnemonic as a capital letter. -/
theorem entries_out_of_reach :
    (let c : Catalog := ⟨[.machine "+LDA" 0x00 .three]⟩
     ofTable "+LDA 00 3" = .ok c ∧ IsEntry "+LDA 00 3".toList "+LDA" 0x00 .three ∧
       c.lookup "+LDA" = none) ∧
    (let c : Catalog := ⟨[.machine "é" 0x00 .three]⟩
     ofTable "é 00 3" = .ok c ∧ IsEntry "é 00 3".toList "é" 0x00 .three ∧ c.lookup "É" = none) :=
  ⟨⟨rfl, ⟨['0', '0'], ['3'], rfl, rfl, rfl⟩, rfl⟩, ⟨rfl, ⟨['0', '0'], ['3'], rfl, rfl, rfl⟩, rfl⟩⟩

end SicXe.Catalog
