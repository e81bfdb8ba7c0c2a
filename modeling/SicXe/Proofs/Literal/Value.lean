import SicXe.Proofs.Literal.Hex
import SicXe.Proofs.Operand.Bounds

/-!
# Values and bytes of numbers

A machine word has 24 bits. The value of hex digits is what they stand for, modulo the words
(`wordOfBytes_eq`): the register that their bytes are shifted into has 32 bits, so that what is shifted
out of it could not have counted. A decimal integer keeps its value, and its bytes are the shortest ones
that stand for its word (`shortest_decimalBytes`).
-/
namespace SicXe.Literal

open Text (IsNumeral SpellsInteger number upperHex)

variable {text : List Char} {bytes : List UInt8}

/-! ### Hex digits -/

/-- A byte shifted into a register of 32 bits. -/
def shiftIn (word : UInt32) (b : UInt8) : UInt32 := (word <<< 8) ||| b.toUInt32

theorem toNat_shiftIn (word : UInt32) (b : UInt8) :
    (shiftIn word b).toNat = (word.toNat * 256 + b.toNat) % 2 ^ 32 := by
  have small := b.toNat_lt
  have places : (8 : UInt32).toNat % 32 = 8 := rfl
  -- The bits that stay have eight free places below them, so the byte is added to them.
  have kept : word.toNat <<< 8 % 2 ^ 32 = (word.toNat % 2 ^ 24) <<< 8 := by
    simp only [Nat.shiftLeft_eq]
    omega
  rw [shiftIn, UInt32.toNat_or, UInt32.toNat_shiftLeft, places, UInt8.toNat_toUInt32, kept,
    ← Nat.shiftLeft_add_eq_or_of_lt small, Nat.shiftLeft_eq]
  omega

theorem toNat_foldl_shiftIn (word : UInt32) (bytes : List UInt8) :
    (bytes.foldl shiftIn word).toNat =
      (word.toNat * 256 ^ bytes.length + bigEndian bytes) % 2 ^ 32 := by
  induction bytes generalizing word with
  | nil =>
    have small := word.toNat_lt
    simp only [List.foldl_nil, List.length_nil, pow_zero, bigEndian_nil]
    omega
  | cons b bytes ih =>
    have moved : (word.toNat * 256 + b.toNat) * 256 ^ bytes.length + bigEndian bytes =
        word.toNat * 256 ^ (b :: bytes).length + bigEndian (b :: bytes) := by
      rw [bigEndian_cons, List.length_cons, pow_succ]
      ring
    rw [List.foldl_cons, ih, toNat_shiftIn, ← moved, Nat.add_mod, Nat.mod_mul_mod, ← Nat.add_mod]

/-- The word of bytes is their number modulo the words, however many bytes there are. -/
theorem wordOfBytes_eq (bytes : List UInt8) :
    (wordOfBytes bytes).toNat = bigEndian bytes % 2 ^ 24 := by
  have mask : (0xFFFFFF : UInt32).toNat = 2 ^ 24 - 1 := rfl
  have read := toNat_foldl_shiftIn 0 bytes
  rw [UInt32.toNat_zero, Nat.zero_mul, Nat.zero_add] at read
  have word : (wordOfBytes bytes).toNat = (bytes.foldl shiftIn 0).toNat % 2 ^ 24 := by
    rw [← Nat.and_two_pow_sub_one_eq_mod, ← mask, ← UInt32.toNat_and]
    rfl
  rw [word, read]
  exact Nat.mod_mod_of_dvd _ (by decide)

/-! ### Decimal integers -/

/-- The least number of bytes for a number, one for zero. -/
structure Shortest (bytes : List UInt8) (n : Nat) : Prop where
  filled : bytes ≠ []
  value : bigEndian bytes = n
  least : ∀ other, other ≠ [] → bigEndian other = n → bytes.length ≤ other.length

theorem bigEndian_lt (bytes : List UInt8) : bigEndian bytes < 256 ^ bytes.length := by
  have small : ∀ d ∈ (bytes.map UInt8.toNat).reverse, d < 256 := by
    intro d member
    obtain ⟨b, _, rfl⟩ := List.mem_map.1 (List.mem_reverse.1 member)
    exact b.toNat_lt
  have bound := Nat.ofDigits_lt_base_pow_length (by decide) small
  rw [List.length_reverse, List.length_map] at bound
  exact bound

/-- A number starts with a zero byte only if it is zero, for without that byte it would be shorter. -/
theorem Shortest.head {n : Nat} (shortest : Shortest bytes n) (zero : bytes.head? = some 0) : n = 0 := by
  obtain ⟨rest, rfl⟩ := List.head?_eq_some_iff.1 zero
  have value := shortest.value
  rw [bigEndian_cons] at value
  cases rest with
  | nil => simpa using value.symm
  | cons b rest =>
    have longer := shortest.least (b :: rest) (List.cons_ne_nil _ _) (by simpa using value)
    simp only [List.length_cons] at longer
    omega

theorem shortest_upperHex (n : Nat) :
    ∃ bytes, hexBytes? (upperHex n) = some bytes ∧ Shortest bytes n := by
  obtain ⟨bytes, read⟩ := hexBytes?_of_isNumeral (Text.isNumeral_upperHex n)
  have value := bigEndian_of_hexBytes? read
  have length := length_hexBytes read
  rw [upperHex, List.length_map] at length
  refine ⟨bytes, read, ?_, by rw [value, Text.number_upperHex], fun other filled same => ?_⟩
  · rintro rfl
    have digit := Nat.length_toDigits_pos (b := 16) (n := n)
    rw [List.length_nil] at length
    omega
  · -- Another encoding has room for all the digits.
    have room : n < 16 ^ (2 * other.length) := by
      rw [pow_mul, ← same]
      exact bigEndian_lt other
    have some_byte := List.length_pos_iff.2 filled
    have digits := (Nat.length_toDigits_le_iff (by decide) (by omega)).2 room
    omega

theorem shortest_decimalBytes (value : Int) : Shortest (decimalBytes value) (Word.low value) := by
  obtain ⟨bytes, read, shortest⟩ := shortest_upperHex (Word.low value)
  rw [decimalBytes, read, Option.getD_some]
  exact shortest

/-! ### Constants -/

theorem decimal?_eq_some_iff {value : Int} :
    decimal? text = some value ↔ SpellsInteger text value ∧ Word.fits value = true := by
  rw [decimal?, Option.filter_eq_some_iff, Text.integer?_eq_some_iff]

/-- A decimal integer is a constant of its own value. -/
theorem parse_of_decimal {expression : String} {value : Int}
    (read : decimal? (Text.trim expression.toList) = some value) : ∃ l,
    parse expression = .ok l ∧ l.kind = .decimal ∧ l.value = value ∧ l.bytes = decimalBytes value := by
  have unpooled := Text.integer?_unpooled (Option.filter_eq_some_iff.1 read).1
  refine ⟨_, parse_of_form (.decimal unpooled read), rfl, ?_, rfl⟩
  simp only [Literal.value, String.toList_ofList, read, Option.getD_some]

theorem parse_of_digits {expression : String} {pooled : Bool} {marker : Char} {digits : List Char}
    (mark : marker.toUpper = 'X') (numeral : IsNumeral 16 digits)
    (written : Text.trim expression.toList = characters pooled marker digits) : ∃ l,
    parse expression = .ok l ∧ l.kind = quotedKind pooled true ∧
      l.value = (number 16 digits % 2 ^ 24 : Nat) := by
  obtain ⟨bytes, read⟩ := hexBytes?_of_isNumeral numeral
  have form : Form (Text.trim expression.toList) (quotedKind pooled true) bytes := by
    rw [written]
    exact .quoted pooled true mark numeral.filled read
  refine ⟨_, parse_of_form form, rfl, ?_⟩
  have word : ((wordOfBytes bytes).toNat : Int) = (number 16 digits % 2 ^ 24 : Nat) := by
    rw [wordOfBytes_eq, bigEndian_of_hexBytes? read]
  cases pooled <;> exact word

/-- Hex digits have the value that they stand for, modulo the machine words. A decimal integer in any
spelling has its own value, and the shortest bytes that stand for it modulo the machine words: one to
three, of which the first is zero for a zero only. -/
theorem parse_value :
    (∀ (pooled : Bool) (marker : Char) (digits : List Char) (expression : String),
      marker = 'X' ∨ marker = 'x' → IsNumeral 16 digits →
      Text.trim expression.toList = characters pooled marker digits →
        ∃ l, parse expression = .ok l ∧ l.kind = quotedKind pooled true ∧
          l.value = (number 16 digits % 2 ^ 24 : Nat)) ∧
    ∀ (value : Int) (expression : String), Word.fits value = true →
      SpellsInteger (Text.trim expression.toList) value →
        ∃ l, parse expression = .ok l ∧ l.kind = .decimal ∧ l.value = value ∧
          Shortest l.bytes (value % 2 ^ 24).toNat ∧ 1 ≤ l.bytes.length ∧ l.bytes.length ≤ 3 ∧
          (l.bytes.head? = some 0 → value % 2 ^ 24 = 0) := by
  constructor
  · intro pooled marker digits expression mark numeral written
    refine parse_of_digits ?_ numeral written
    rcases mark with rfl | rfl <;> rfl
  · intro value expression fits spells
    obtain ⟨l, parsed, kind, same, bytes⟩ := parse_of_decimal (decimal?_eq_some_iff.2 ⟨spells, fits⟩)
    have shortest : Shortest l.bytes (value % 2 ^ 24).toNat := by
      rw [bytes]
      exact shortest_decimalBytes value
    have short : l.bytes.length ≤ 3 := by
      rw [bytes]
      exact length_decimalBytes value
    refine ⟨l, parsed, kind, same, shortest, List.length_pos_iff.2 shortest.filled, short, ?_⟩
    intro zero
    have nothing := shortest.head zero
    have positive := Int.emod_nonneg value (show (2 : Int) ^ 24 ≠ 0 by decide)
    omega

/-- Hex digits for more than eight bytes, and a negative integer whose word is one. -/
theorem parse_value_wrapped :
    (∃ l, parse " =x'1fF00000000Abcdef' " = .ok l ∧ l.value = 0xABCDEF) ∧
    ∃ l, parse "-0016777215" = .ok l ∧ l.value = -16777215 ∧ Shortest l.bytes 1 := by
  constructor
  · have digits : Text.natural? 16 "1fF00000000Abcdef".toList = some 0x1FF00000000ABCDEF := rfl
    obtain ⟨numeral, denotes⟩ := Text.natural?_eq_some_iff.1 digits
    obtain ⟨l, parsed, _, value⟩ := parse_value.1 true 'x' "1fF00000000Abcdef".toList
      " =x'1fF00000000Abcdef' " (Or.inr rfl) numeral rfl
    rw [denotes] at value
    exact ⟨l, parsed, value⟩
  · obtain ⟨l, parsed, _, value, shortest, _⟩ := parse_value.2 (-16777215) "-0016777215" (by decide)
      (Text.integer?_eq_some_iff.1 rfl)
    exact ⟨l, parsed, value, shortest⟩

end SicXe.Literal
