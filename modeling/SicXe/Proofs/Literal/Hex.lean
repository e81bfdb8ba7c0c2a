import SicXe.Literal.Basic
import SicXe.Proofs.Literal.Form
import SicXe.Proofs.Text.Case
import SicXe.Proofs.Text.Numeral

/-!
# Bytes and hex digits

Bytes and the hex digits that they are written in are the same number in two bases. Packing digits two by
two and taking the halves of bytes undo each other (`packPairs_nibbles`, `nibbles_packPairs`), so hex
digits are read as the bytes with these halves, behind a zero if their count is odd
(`hexBytes?_eq_some_iff`), and bytes written in hex are read as themselves (`hexBytes?_bytesHex`).
-/
namespace SicXe

namespace Text

/-- The values of digits are below sixteen. -/
theorem digitValue?_lt {c : Char} {value : Nat} (read : digitValue? c = some value) : value < 16 := by
  rw [digitValue?_eq_some_iff] at read
  omega

/-! ### Writing digits -/

/-- The digit that a number below sixteen is written as. -/
def hexDigit (value : Nat) : Char := (Nat.digitChar value).toUpper

theorem digitValue?_hexDigit {value : Nat} (small : value < 16) :
    digitValue? (hexDigit value) = some value := by
  rw [hexDigit, digitValue?_toUpper, digitValue?_digitChar small]

@[simp] theorem digitValue_hexDigit {value : Nat} (small : value < 16) :
    digitValue (hexDigit value) = value := by
  rw [digitValue, digitValue?_hexDigit small, Option.getD_some]

theorem isDigit_hexDigit {value : Nat} (small : value < 16) : IsDigit 16 (hexDigit value) :=
  ⟨value, digitValue?_hexDigit small, small⟩

theorem upperHex_of_lt {n : Nat} (small : n < 16) : upperHex n = [hexDigit n] := by
  rw [upperHex, Nat.toDigits_of_lt_base small]
  rfl

theorem isNumeral_upperHex (n : Nat) : IsNumeral 16 (upperHex n) := by
  obtain ⟨numeral, _⟩ := @isNumeral_toDigits 16 (by decide) (by decide) n
  refine ⟨fun nothing => numeral.filled (List.map_eq_nil_iff.1 nothing), fun c member => ?_⟩
  obtain ⟨digit, inside, rfl⟩ := List.mem_map.1 member
  obtain ⟨value, read, small⟩ := numeral.digits digit inside
  exact ⟨value, by rw [digitValue?_toUpper, read], small⟩

/-- A number is the value of its digits. -/
theorem number_upperHex (n : Nat) : number 16 (upperHex n) = n := by
  have folded : digitValue ∘ Char.toUpper = digitValue := by
    funext c
    rw [Function.comp_apply, digitValue, digitValue?_toUpper, digitValue]
  obtain ⟨_, value⟩ := @isNumeral_toDigits 16 (by decide) (by decide) n
  rw [number, upperHex, List.map_map, folded, ← number, value]

end Text

namespace Literal

open Text (IsDigit IsNumeral digitValue number hexDigit bytesHex byteHex)

/-! ### Halves of bytes -/

/-- The halves of bytes, of each byte the high one first. -/
def nibbles (bytes : List UInt8) : List Nat := bytes.flatMap fun b => [b.toNat / 16, b.toNat % 16]

/-- The number that bytes stand for, of which the first counts most. -/
def bigEndian (bytes : List UInt8) : Nat := Nat.ofDigits 256 (bytes.map UInt8.toNat).reverse

@[simp] theorem nibbles_cons (b : UInt8) (bytes : List UInt8) :
    nibbles (b :: bytes) = b.toNat / 16 :: b.toNat % 16 :: nibbles bytes := rfl

@[simp] theorem bigEndian_nil : bigEndian [] = 0 := rfl

theorem bigEndian_cons (b : UInt8) (bytes : List UInt8) :
    bigEndian (b :: bytes) = b.toNat * 256 ^ bytes.length + bigEndian bytes := by
  unfold bigEndian
  rw [List.map_cons, Nat.ofDigits_reverse_cons, List.length_map, Nat.mul_comm, Nat.add_comm]

theorem nibbles_lt (bytes : List UInt8) : ∀ digit ∈ nibbles bytes, digit < 16 := by
  intro digit member
  obtain ⟨b, _, half⟩ := List.mem_flatMap.1 member
  have small := b.toNat_lt
  simp only [List.mem_cons, List.not_mem_nil, or_false] at half
  omega

theorem length_nibbles (bytes : List UInt8) : (nibbles bytes).length = 2 * bytes.length := by
  induction bytes with
  | nil => rfl
  | cons b bytes ih =>
    rw [nibbles_cons, List.length_cons, List.length_cons, ih, List.length_cons]
    omega

theorem packPairs_nibbles (bytes : List UInt8) : packPairs (nibbles bytes) = bytes := by
  induction bytes with
  | nil => rfl
  | cons b bytes ih =>
    have whole : b.toNat / 16 * 16 + b.toNat % 16 = b.toNat := by omega
    rw [nibbles_cons, packPairs, whole, UInt8.ofNat_toNat, ih]

theorem nibbles_packPairs {digits : List Nat} (even : digits.length % 2 = 0)
    (small : ∀ digit ∈ digits, digit < 16) : nibbles (packPairs digits) = digits := by
  induction digits using packPairs.induct with
  | case1 high low rest ih =>
    have high_small := small high (by simp)
    have low_small := small low (by simp)
    have packed : (UInt8.ofNat (high * 16 + low)).toNat = high * 16 + low :=
      UInt8.toNat_ofNat_of_lt' (show high * 16 + low < 256 by omega)
    have former : (high * 16 + low) / 16 = high := by omega
    have latter : (high * 16 + low) % 16 = low := by omega
    rw [packPairs, nibbles_cons, packed, former, latter,
      ih (by simp only [List.length_cons] at even; omega) fun digit member =>
        small digit (by simp [member])]
  | case2 digits short =>
    match digits, short, even with
    | [], _, _ => rfl
    | high :: low :: rest, short, _ => exact (short high low rest rfl).elim

/-- Bytes are told apart by their halves. -/
theorem nibbles_inj {a b : List UInt8} : nibbles a = nibbles b ↔ a = b :=
  ⟨fun same => by rw [← packPairs_nibbles a, same, packPairs_nibbles], congrArg nibbles⟩

theorem ofDigits_nibbles (bytes : List UInt8) :
    Nat.ofDigits 16 (nibbles bytes).reverse = bigEndian bytes := by
  induction bytes with
  | nil => rfl
  | cons b bytes ih =>
    have places : (16 : Nat) ^ (2 * bytes.length) = 256 ^ bytes.length := by
      rw [pow_mul]
      norm_num
    rw [nibbles_cons, Nat.ofDigits_reverse_cons, Nat.ofDigits_reverse_cons, ih, List.length_cons,
      length_nibbles, pow_succ, places, bigEndian_cons]
    have whole : b.toNat = b.toNat / 16 * 16 + b.toNat % 16 := by omega
    calc bigEndian bytes + 256 ^ bytes.length * (b.toNat % 16) +
          256 ^ bytes.length * 16 * (b.toNat / 16)
        = (b.toNat / 16 * 16 + b.toNat % 16) * 256 ^ bytes.length + bigEndian bytes := by ring
      _ = b.toNat * 256 ^ bytes.length + bigEndian bytes := by rw [← whole]

/-! ### Reading hex digits -/

/-- The values of digits, with a zero in front of an odd count. -/
def paddedValues (text : List Char) : List Nat :=
  (if text.length % 2 = 1 then [0] else []) ++ text.map digitValue

theorem hexDigits?_eq_some_iff {text : List Char} {digits : List Nat} :
    hexDigits? text = some digits ↔ (∀ c ∈ text, IsDigit 16 c) ∧ text.map digitValue = digits := by
  induction text generalizing digits with
  | nil => simp [hexDigits?]
  | cons c rest ih =>
    have later {digits : List Nat} : rest.mapM Text.digitValue? = some digits ↔
        (∀ c ∈ rest, IsDigit 16 c) ∧ rest.map digitValue = digits := ih
    rw [List.forall_mem_cons, List.map_cons]
    simp only [hexDigits?, List.mapM_cons, Option.bind_eq_bind, Option.bind_eq_some_iff,
      Option.pure_def, Option.some.injEq, later]
    constructor
    · rintro ⟨digit, read, _, ⟨digits, rfl⟩, rfl⟩
      exact ⟨⟨⟨digit, read, Text.digitValue?_lt read⟩, digits⟩, by rw [digitValue, read]; rfl⟩
    · rintro ⟨⟨⟨digit, read, _⟩, digits⟩, rfl⟩
      exact ⟨digit, read, _, ⟨digits, rfl⟩, by rw [digitValue, read]; rfl⟩

theorem packDigits_values (text : List Char) :
    packDigits (text.map digitValue) = packPairs (paddedValues text) := by
  unfold packDigits paddedValues
  rw [List.length_map]
  split <;> rfl

theorem length_paddedValues (text : List Char) :
    (paddedValues text).length = 2 * ((text.length + 1) / 2) := by
  unfold paddedValues
  split
  · simp only [List.length_append, List.length_cons, List.length_nil, List.length_map]
    omega
  · simp only [List.nil_append, List.length_map]
    omega

theorem paddedValues_lt {text : List Char} (digits : ∀ c ∈ text, IsDigit 16 c) :
    ∀ digit ∈ paddedValues text, digit < 16 := by
  intro digit member
  rcases List.mem_append.1 member with zero | value
  · split at zero
    · rw [List.mem_singleton.1 zero]
      decide
    · cases zero
  · obtain ⟨c, inside, rfl⟩ := List.mem_map.1 value
    exact (digits c inside).value_lt

theorem nibbles_packPairs_paddedValues {text : List Char} (digits : ∀ c ∈ text, IsDigit 16 c) :
    nibbles (packPairs (paddedValues text)) = paddedValues text := by
  have length := length_paddedValues text
  exact nibbles_packPairs (by omega) (paddedValues_lt digits)

theorem ofDigits_paddedValues (text : List Char) :
    Nat.ofDigits 16 (paddedValues text).reverse = number 16 text := by
  unfold paddedValues number
  split
  · exact Nat.ofDigits_reverse_zero_cons _
  · rfl

/-- Hex digits are read as the bytes whose halves they are, behind a zero if their count is odd. -/
theorem hexBytes?_eq_some_iff {text : List Char} {bytes : List UInt8} :
    hexBytes? text = some bytes ↔ IsNumeral 16 text ∧ nibbles bytes = paddedValues text := by
  unfold hexBytes?
  split
  · rename_i nothing
    rw [List.isEmpty_iff] at nothing
    simp only [reduceCtorEq, false_iff, not_and]
    exact fun numeral => absurd nothing numeral.filled
  · rename_i filled
    rw [List.isEmpty_iff] at filled
    simp only [Option.map_eq_some_iff, hexDigits?_eq_some_iff]
    constructor
    · rintro ⟨_, ⟨digits, rfl⟩, rfl⟩
      refine ⟨⟨filled, digits⟩, ?_⟩
      rw [packDigits_values, nibbles_packPairs_paddedValues digits]
    · rintro ⟨numeral, halves⟩
      refine ⟨_, ⟨numeral.digits, rfl⟩, ?_⟩
      rw [packDigits_values, ← halves, packPairs_nibbles]

theorem hexBytes?_of_isNumeral {text : List Char} (numeral : IsNumeral 16 text) :
    ∃ bytes, hexBytes? text = some bytes :=
  ⟨_, hexBytes?_eq_some_iff.2 ⟨numeral, nibbles_packPairs_paddedValues numeral.digits⟩⟩

/-- Two digits a byte, an odd digit alone. -/
theorem length_hexBytes {text : List Char} {bytes : List UInt8} (read : hexBytes? text = some bytes) :
    bytes.length = (text.length + 1) / 2 := by
  have halves := congrArg List.length (hexBytes?_eq_some_iff.1 read).2
  rw [length_nibbles, length_paddedValues] at halves
  omega

theorem bigEndian_of_hexBytes? {text : List Char} {bytes : List UInt8}
    (read : hexBytes? text = some bytes) : bigEndian bytes = number 16 text := by
  rw [← ofDigits_nibbles, (hexBytes?_eq_some_iff.1 read).2, ofDigits_paddedValues]

/-! ### Bytes in hex -/

theorem byteHex_eq (b : UInt8) : byteHex b = [hexDigit (b.toNat / 16), hexDigit (b.toNat % 16)] := by
  have small := b.toNat_lt
  rw [byteHex, Text.upperHex_of_lt (by omega), Text.upperHex_of_lt (by omega)]
  rfl

/-- The digits of bytes are those of their halves. -/
theorem toList_bytesHex (bytes : List UInt8) :
    (bytesHex bytes).toList = (nibbles bytes).map hexDigit := by
  unfold bytesHex nibbles
  rw [String.toList_ofList, List.map_flatMap]
  exact congrArg (bytes.flatMap ·) (funext byteHex_eq)

theorem digitValues_bytesHex (bytes : List UInt8) :
    (bytesHex bytes).toList.map digitValue = nibbles bytes := by
  rw [toList_bytesHex, List.map_map]
  conv_rhs => rw [← List.map_id (nibbles bytes)]
  exact List.map_congr_left fun digit member => Text.digitValue_hexDigit (nibbles_lt bytes digit member)

theorem bytesHex_inj {a b : List UInt8} : bytesHex a = bytesHex b ↔ a = b :=
  ⟨fun same => nibbles_inj.1 (by rw [← digitValues_bytesHex, same, digitValues_bytesHex]),
    congrArg bytesHex⟩

theorem isNumeral_bytesHex {bytes : List UInt8} (filled : bytes ≠ []) :
    IsNumeral 16 (bytesHex bytes).toList := by
  rw [toList_bytesHex]
  constructor
  · cases bytes with
    | nil => exact absurd rfl filled
    | cons b bytes => simp
  · intro c member
    obtain ⟨digit, half, rfl⟩ := List.mem_map.1 member
    exact Text.isDigit_hexDigit (nibbles_lt bytes digit half)

theorem hexBytes?_bytesHex {bytes : List UInt8} (filled : bytes ≠ []) :
    hexBytes? (bytesHex bytes).toList = some bytes := by
  rw [hexBytes?_eq_some_iff]
  refine ⟨isNumeral_bytesHex filled, ?_⟩
  have even : ¬ (bytesHex bytes).toList.length % 2 = 1 := by
    rw [toList_bytesHex, List.length_map, length_nibbles]
    omega
  rw [paddedValues, if_neg even, List.nil_append, digitValues_bytesHex]

end Literal

end SicXe
