import SicXe.Proofs.Literal.Hex
import SicXe.Proofs.Operand.Evaluation

/-!
# Bounds of evaluated operands

The value of an operand fits 32 bits, whichever way it came about (`fits_of_resolve`), as long as the
values in the symbol table and the addresses in the pool do. An operand has at most three bytes, or
no more of them than its text has characters (`length_bytes_of_resolve`).
-/
namespace SicXe

/-! ### Values -/

theorem SymbolTable.WellFormed.lookup_fits {t : SymbolTable} (wf : t.WellFormed) {label : String}
    {symbol : Symbol} (h : t.lookup label = some symbol) : Word.fits symbol.value = true := by
  unfold SymbolTable.lookup at h
  split at h
  · exact wf.fits h
  · cases h

namespace Literal

theorem wordOfBytes_le (bytes : List UInt8) : (wordOfBytes bytes).toNat ≤ 0xFFFFFF := by
  dsimp only [wordOfBytes]
  rw [UInt32.toNat_and]
  exact Nat.and_le_right

theorem fits_value (l : Literal) : Word.fits l.value = true := by
  have word := wordOfBytes_le l.bytes
  have code := (l.bytes.head?.getD 0).toNat_lt
  unfold value
  cases l.kind with
  | decimal =>
    dsimp only
    cases read : decimal? l.expression.toList with
    | none => decide
    | some n => exact (Option.filter_eq_some_iff.1 read).2
  | _ =>
    dsimp only
    rw [Word.fits_iff]
    omega

end Literal

namespace Operand

variable {symbols : SymbolTable}

theorem fits_of_symbol (wf : symbols.WellFormed) {text : List Char} {q : Quantity}
    (h : symbol symbols text = .ok q) : Word.fits q.value = true := by
  dsimp only [symbol] at h
  split at h
  · rename_i found
    cases h
    exact wf.lookup_fits found
  · cases h

theorem fits_of_term (wf : symbols.WellFormed) {raw : List Char} {q : Quantity}
    (h : term symbols raw = .ok q) : Word.fits q.value = true := by
  dsimp only [term] at h
  split at h
  · cases h
  · split at h
    · split at h
      · rename_i fits
        cases h
        exact fits
      · cases h
    · exact fits_of_symbol wf h

theorem fits_of_arithmetic {text : List Char} {q : Quantity}
    (h : arithmetic symbols text = .ok q) : Word.fits q.value = true := by
  unfold arithmetic at h
  split at h
  · split at h
    · cases h
    · split at h
      · cases h
      · dsimp only at h
        split at h
        · rename_i fits
          cases h
          exact fits
        · cases h
  · cases h

theorem fits_of_quantity (wf : symbols.WellFormed) {text : List Char} {q : Quantity}
    (h : quantity symbols text = .ok q) : Word.fits q.value = true := by
  unfold quantity at h
  split at h
  · exact fits_of_term wf h
  · exact fits_of_arithmetic h

theorem fits_of_resolveQuantity (wf : symbols.WellFormed) {mode : Mode} {text : List Char}
    {q : Quantity} (h : resolveQuantity symbols mode text = .ok q) : Word.fits q.value = true := by
  unfold resolveQuantity at h
  cases mode with
  | immediate =>
    dsimp only at h
    exact fits_of_quantity wf h
  | indexed =>
    dsimp only at h
    split at h
    · cases h
    · exact fits_of_quantity wf h
  | arithmetic =>
    dsimp only at h
    exact fits_of_arithmetic h
  | _ =>
    dsimp only at h
    exact fits_of_symbol wf h

theorem fits_of_resolve (wf : symbols.WellFormed) {pool pool' : LiteralPool} (counted : pool.WellFormed)
    {expression : String} {operand : Operand}
    (h : resolve symbols pool expression = .ok (operand, pool')) :
    Word.fits operand.value = true := by
  rcases resolve_cases expression with ⟨kind, _, eq⟩ | ⟨_, eq⟩ | ⟨_, eq⟩
  · rw [eq] at h
    obtain ⟨l, registered, rfl⟩ := resolvePooled_ok h
    obtain ⟨_, _, found⟩ := LiteralPool.get?_of_register registered
    exact (counted.register registered).address_fits (List.mem_of_find?_eq_some found)
  · rw [eq] at h
    obtain ⟨_, constant, read, rfl⟩ := map_pool_ok h
    unfold resolveConstant at read
    split at read
    · cases read
    · cases read
      exact Literal.fits_value _
  · rw [eq] at h
    obtain ⟨_, q, valued, rfl⟩ := map_pool_ok h
    exact fits_of_resolveQuantity wf valued

end Operand

/-! ### Bytes -/

namespace Literal

theorem length_decimalBytes (value : Int) : (decimalBytes value).length ≤ 3 := by
  have digits : (Text.upperHex (Word.low value)).length ≤ 6 := by
    rw [Text.upperHex, List.length_map, Nat.length_toDigits_le_iff (by decide) (by decide)]
    exact Word.unsigned_lt .bits24 value
  unfold decimalBytes
  cases packed : hexBytes? (Text.upperHex (Word.low value)) with
  | none => exact Nat.zero_le 3
  | some bytes =>
    have count := length_hexBytes packed
    rw [Option.getD_some]
    omega

theorem length_of_form {text : List Char} {kind : Kind} {bytes : List UInt8}
    (form : Form text kind bytes) : bytes.length ≤ max 3 text.length := by
  cases form with
  | @decimal _ value unpooled read =>
    have short := length_decimalBytes value
    omega
  | @quoted pooled number marker inner _ upper filled read =>
    have inside : bytes.length ≤ inner.length := by
      cases number with
      | true =>
        have count := length_hexBytes read
        have some_digit := List.length_pos_iff.2 filled
        omega
      | false =>
        obtain ⟨_, rfl⟩ := characterBytes?_eq_some_iff.1 read
        rw [codes, List.length_map]
    simp only [List.length_append, List.length_cons]
    omega

end Literal

theorem Literal.length_bytes_of_parse {expression : String} {l : Literal}
    (h : parse expression = .ok l) : l.bytes.length ≤ max 3 expression.length := by
  have short := length_of_form (form_of_parse h).1
  have trimmed := (Text.trim_infix expression.toList).length_le
  rw [String.length_toList] at trimmed
  omega

theorem Operand.length_bytes_of_resolve {symbols : SymbolTable} {pool pool' : LiteralPool}
    {expression : String} {operand : Operand}
    (h : resolve symbols pool expression = .ok (operand, pool')) :
    operand.bytes.length ≤ max 3 expression.length := by
  have trimmed := (Text.trim_infix expression.toList).length_le
  rw [String.length_toList, ← String.length_ofList] at trimmed
  rcases resolve_cases expression with ⟨kind, _, eq⟩ | ⟨_, eq⟩ | ⟨_, eq⟩
  · rw [eq] at h
    obtain ⟨l, registered, rfl⟩ := resolvePooled_ok h
    obtain ⟨parsed, read, same⟩ := LiteralPool.bytes_of_register registered
    have short := Literal.length_bytes_of_parse read
    rw [← same] at short
    dsimp only
    omega
  · rw [eq] at h
    obtain ⟨_, constant, read, rfl⟩ := map_pool_ok h
    unfold resolveConstant at read
    split at read
    · cases read
    · rename_i parsed
      cases read
      have short := Literal.length_bytes_of_parse parsed
      dsimp only
      omega
  · rw [eq] at h
    obtain ⟨_, q, _, rfl⟩ := map_pool_ok h
    exact Nat.zero_le _

end SicXe
