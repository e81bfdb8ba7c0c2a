import SicXe.Proofs.Text.Words
import SicXe.Source.Statement

/-!
# The statement of a line

What a line says depends on the catalog and on its text; its number only matters for the error of a
line that says nothing that is known. The columns of a statement are no longer than the line, and its
instruction is a directive or has a format, as the instructions of the catalog have.
-/
namespace SicXe

/-! ### Lengths -/

namespace Text

/-- Every character takes a byte at least. -/
theorem length_le_utf8ByteSize (text : String) : text.length ≤ text.utf8ByteSize := by
  have encoded (cs : List Char) : cs.length ≤ (cs.flatMap String.utf8EncodeChar).length := by
    induction cs with
    | nil => exact Nat.le_refl 0
    | cons c rest ih =>
      have positive := c.utf8Size_pos
      rw [List.flatMap_cons, List.length_append, String.length_utf8EncodeChar, List.length_cons]
      omega
  rw [← String.size_toByteArray, ← String.utf8Encode_toList, List.utf8Encode,
    List.size_toByteArray, ← String.length_toList]
  exact encoded text.toList

end Text

/-! ### Catalogs -/

/-- Every instruction has a format, which no directive has. -/
def Catalog.Formatted (c : Catalog) : Prop := ∀ i ∈ c.entries, i.format ≠ .unsized

instance (c : Catalog) : Decidable c.Formatted :=
  inferInstanceAs (Decidable (∀ i ∈ c.entries, i.format ≠ .unsized))

theorem Instruction.format_extend {i : Instruction} (h : i.format ≠ .unsized) :
    i.extend.format ≠ .unsized := by
  cases i with
  | directive d => exact h
  | machine mnemonic opcode format =>
    cases format with
    | unsized => exact h
    | _ => simp [extend, Instruction.format]

theorem Catalog.Formatted.lookup {c : Catalog} (formatted : c.Formatted) {column : String}
    {i : Instruction} (h : c.lookup column = some i) :
    (∃ d, i = .directive d) ∨ i.format ≠ .unsized := by
  have found {key : String} {i : Instruction} (h : c.find? key = some i) :
      (∃ d, i = .directive d) ∨ i.format ≠ .unsized := by
    unfold find? at h
    split at h
    · cases h
      exact Or.inl ⟨_, rfl⟩
    · exact Or.inr (formatted i (List.mem_of_find?_eq_some h))
  dsimp only [Catalog.lookup] at h
  split at h
  · cases h
  · split at h
    · obtain ⟨plain, here, rfl⟩ := Option.map_eq_some_iff.1 h
      rcases found here with ⟨d, rfl⟩ | sized
      · exact Or.inl ⟨d, rfl⟩
      · exact Or.inr (Instruction.format_extend sized)
    · exact found h

/-! ### Statements -/

namespace Source

/-- The statement in a line, if there is one. -/
def statementIn (catalog : Catalog) (text : String) : Option Statement :=
  if isIdle text.toList then none else statement? catalog (columnsOf text)

theorem read_eq_some_iff {catalog : Catalog} {line : Nat} {text : String} {s : Statement} :
    read catalog line text = .ok (some s) ↔ statementIn catalog text = some s := by
  unfold read statementIn
  split
  · simp
  · dsimp only
    cases statement? catalog (columnsOf text) <;> simp

theorem read_eq_none_iff {catalog : Catalog} {line : Nat} {text : String} :
    read catalog line text = .ok none ↔ isIdle text.toList = true := by
  unfold read
  split
  · rename_i idle
    simp [idle]
  · rename_i active
    dsimp only
    cases statement? catalog (columnsOf text) <;> simp [active]

theorem not_isIdle_of_statementIn {catalog : Catalog} {text : String} {s : Statement}
    (h : statementIn catalog text = some s) : isIdle text.toList = false := by
  unfold statementIn at h
  split at h
  · cases h
  · rename_i active
    exact Bool.eq_false_iff.2 active

/-- The instruction of a statement is one that the catalog gives for a column, and the operand is a
column. -/
theorem statement?_eq_some {catalog : Catalog} {columns : List String} {s : Statement}
    (h : statement? catalog columns = some s) :
    (∃ column, catalog.lookup column = some s.instruction) ∧
      ∀ operand, s.operand = some operand → operand ∈ columns := by
  unfold statement? at h
  split at h
  · cases h
  · rename_i first rest
    split at h
    · rename_i i found
      cases h
      exact ⟨⟨first, found⟩, fun operand here =>
        List.mem_cons_of_mem _ (List.mem_of_head? here)⟩
    · split at h
      · cases h
      · rename_i second rest
        obtain ⟨i, found, rfl⟩ := Option.map_eq_some_iff.1 h
        exact ⟨⟨second, found⟩, fun operand here =>
          List.mem_cons_of_mem _ (List.mem_cons_of_mem _ (List.mem_of_head? here))⟩

theorem statementIn_eq_some {catalog : Catalog} {text : String} {s : Statement}
    (h : statementIn catalog text = some s) :
    (∃ column, catalog.lookup column = some s.instruction) ∧
      ∀ operand, s.operand = some operand → operand.length ≤ text.length := by
  unfold statementIn at h
  split at h
  · cases h
  · obtain ⟨known, column⟩ := statement?_eq_some h
    refine ⟨known, fun operand here => ?_⟩
    obtain ⟨word, member, rfl⟩ := List.mem_map.1 (column operand here)
    have short := (Text.sublist_of_mem_quotedWords member).length_le
    rw [String.length_ofList, ← String.length_toList]
    exact short

end Source

end SicXe
