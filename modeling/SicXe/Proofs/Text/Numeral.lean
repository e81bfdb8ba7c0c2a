import Mathlib.Data.Nat.Digits.Defs
import SicXe.Text.Numeral

/-!
# What numerals stand for

The value of digits is the sum of the values of the single ones, each times a power of the base
(`number`). The readers of numerals add digit by digit; what they accept is digits of the base, at most
one sign before them where there may be one, and what they answer is that value
(`natural?_eq_some_iff`, `integer?_eq_some_iff`, `byte?_eq_some_iff`). Zeros in front change nothing and
no numeral is too long to be read. What numbers are written as stands for them
(`isNumeral_toDigits`, `spellsInteger_toString`).
-/
namespace SicXe.Text

/-- The value of a digit. -/
def digitValue (c : Char) : Nat := (digitValue? c).getD 0

/-- A character that is a digit in a base. -/
def IsDigit (base : Nat) (c : Char) : Prop := ∃ value, digitValue? c = some value ∧ value < base

/-- The value of digits, of which the first counts most. -/
def number (base : Nat) (digits : List Char) : Nat :=
  Nat.ofDigits base (digits.map digitValue).reverse

/-- Digits of a base, and at least one. -/
structure IsNumeral (base : Nat) (text : List Char) : Prop where
  filled : text ≠ []
  digits : ∀ c ∈ text, IsDigit base c

/-- The spellings of a decimal integer: its digits, which may follow a sign. -/
inductive SpellsInteger : List Char → Int → Prop where
  | unsigned {digits : List Char} (numeral : IsNumeral 10 digits) :
      SpellsInteger digits (number 10 digits)
  | plus {digits : List Char} (numeral : IsNumeral 10 digits) :
      SpellsInteger ('+' :: digits) (number 10 digits)
  | minus {digits : List Char} (numeral : IsNumeral 10 digits) :
      SpellsInteger ('-' :: digits) (-number 10 digits)

/-- The spellings of a byte: its digits, which may follow a plus sign. -/
inductive SpellsByte (base : Nat) : List Char → UInt8 → Prop where
  | unsigned {digits : List Char} {b : UInt8} (numeral : IsNumeral base digits)
      (value : number base digits = b.toNat) : SpellsByte base digits b
  | plus {digits : List Char} {b : UInt8} (numeral : IsNumeral base digits)
      (value : number base digits = b.toNat) : SpellsByte base ('+' :: digits) b

/-! ### Digits -/

variable {base : Nat} {c : Char} {text : List Char}

/-- The digits, by their character codes. -/
theorem digitValue?_eq_some_iff {value : Nat} : digitValue? c = some value ↔
    (48 ≤ c.toNat ∧ c.toNat ≤ 57 ∧ value = c.toNat - 48) ∨
      (97 ≤ c.toNat ∧ c.toNat ≤ 102 ∧ value = c.toNat - 87) ∨
        (65 ≤ c.toNat ∧ c.toNat ≤ 70 ∧ value = c.toNat - 55) := by
  have decimal : ('0' ≤ c ∧ c ≤ '9') ↔ 48 ≤ c.toNat ∧ c.toNat ≤ 57 := Iff.rfl
  have small : ('a' ≤ c ∧ c ≤ 'f') ↔ 97 ≤ c.toNat ∧ c.toNat ≤ 102 := Iff.rfl
  have capital : ('A' ≤ c ∧ c ≤ 'F') ↔ 65 ≤ c.toNat ∧ c.toNat ≤ 70 := Iff.rfl
  simp only [digitValue?, decimal, small, capital]
  split
  · rw [Option.some.injEq]
    omega
  · split
    · rw [Option.some.injEq]
      omega
    · split
      · rw [Option.some.injEq]
        omega
      · simp only [reduceCtorEq, false_iff]
        omega

theorem digitIn?_eq_some_iff {value : Nat} :
    digitIn? base c = some value ↔ IsDigit base c ∧ digitValue c = value := by
  unfold digitIn? IsDigit digitValue
  rw [Option.filter_eq_some_iff, decide_eq_true_eq]
  constructor
  · rintro ⟨read, small⟩
    exact ⟨⟨value, read, small⟩, by rw [read, Option.getD_some]⟩
  · rintro ⟨⟨other, read, small⟩, same⟩
    rw [read, Option.getD_some] at same
    rw [← same]
    exact ⟨read, small⟩

theorem IsDigit.value_lt (digit : IsDigit base c) : digitValue c < base := by
  obtain ⟨value, read, small⟩ := digit
  rw [digitValue, read]
  exact small

/-- The decimal digits are those of ASCII. -/
theorem isDigit_ten_iff : IsDigit 10 c ↔ c.isDigit = true := by
  have decimal : c.isDigit = true ↔ 48 ≤ c.toNat ∧ c.toNat ≤ 57 := by
    rw [Char.isDigit, Bool.and_eq_true, decide_eq_true_eq, decide_eq_true_eq]
    exact Iff.rfl
  rw [decimal]
  simp only [IsDigit, digitValue?_eq_some_iff]
  constructor
  · -- The values of letters start at ten.
    rintro ⟨value, read, small⟩
    omega
  · intro between
    exact ⟨c.toNat - 48, by omega, by omega⟩

/-! ### Values of digits -/

@[simp] theorem number_nil (base : Nat) : number base [] = 0 := rfl

theorem number_cons (base : Nat) (c : Char) (rest : List Char) :
    number base (c :: rest) = digitValue c * base ^ rest.length + number base rest := by
  unfold number
  rw [List.map_cons, Nat.ofDigits_reverse_cons, List.length_map, Nat.mul_comm, Nat.add_comm]

theorem number_append (base : Nat) (front rest : List Char) :
    number base (front ++ rest) = number base front * base ^ rest.length + number base rest := by
  induction front with
  | nil => rw [List.nil_append, number_nil, Nat.zero_mul, Nat.zero_add]
  | cons c front ih =>
    rw [List.cons_append, number_cons, number_cons, ih, List.length_append, pow_add]
    ring

/-- Reading digits onto a value moves the value up by as many places. -/
theorem digitsOnto_eq_some_iff {value read : Nat} : digitsOnto base value text = some read ↔
    (∀ c ∈ text, IsDigit base c) ∧ value * base ^ text.length + number base text = read := by
  induction text generalizing value with
  | nil => simp [digitsOnto]
  | cons c rest ih =>
    unfold digitsOnto
    rw [number_cons, List.length_cons, List.forall_mem_cons]
    have moved (digit : Nat) : (value * base + digit) * base ^ rest.length + number base rest =
        value * base ^ (rest.length + 1) + (digit * base ^ rest.length + number base rest) := by
      rw [pow_succ]
      ring
    cases first : digitIn? base c with
    | some digit =>
      obtain ⟨here, rfl⟩ := digitIn?_eq_some_iff.1 first
      simp only [ih, moved, here, true_and]
    | none =>
      have no_digit : ¬ IsDigit base c := fun digit => by
        rw [digitIn?_eq_some_iff.2 ⟨digit, rfl⟩] at first
        cases first
      simp [no_digit]

theorem natural?_eq_some_iff {value : Nat} :
    natural? base text = some value ↔ IsNumeral base text ∧ number base text = value := by
  unfold natural?
  cases text with
  | nil =>
    simp only [List.isEmpty_nil, if_true, reduceCtorEq, false_iff, not_and]
    exact fun numeral => absurd rfl numeral.filled
  | cons c rest =>
    simp only [List.isEmpty_cons, Bool.false_eq_true, if_false, digitsOnto_eq_some_iff,
      Nat.zero_mul, Nat.zero_add]
    exact ⟨fun ⟨digits, value⟩ => ⟨⟨List.cons_ne_nil _ _, digits⟩, value⟩,
      fun ⟨numeral, value⟩ => ⟨numeral.digits, value⟩⟩

/-! ### Signed numerals -/

theorem integer?_unsigned (plus : text.head? ≠ some '+') (minus : text.head? ≠ some '-') :
    integer? text = (natural? 10 text).map Int.ofNat := by
  unfold integer?
  split
  · exact absurd rfl plus
  · exact absurd rfl minus
  · rfl

theorem integer?_eq_some_iff {value : Int} :
    integer? text = some value ↔ SpellsInteger text value := by
  constructor
  · intro h
    unfold integer? at h
    split at h
    all_goals
      obtain ⟨n, read, rfl⟩ := Option.map_eq_some_iff.1 h
      obtain ⟨numeral, rfl⟩ := natural?_eq_some_iff.1 read
    · exact .plus numeral
    · exact .minus numeral
    · exact .unsigned numeral
  · intro spells
    cases spells with
    | plus numeral =>
      simp only [integer?, natural?_eq_some_iff.2 ⟨numeral, rfl⟩]
      rfl
    | minus numeral =>
      simp only [integer?, natural?_eq_some_iff.2 ⟨numeral, rfl⟩]
      rfl
    | unsigned numeral =>
      have no_sign {sign : Char} (other : ¬ IsDigit 10 sign) : text.head? ≠ some sign := fun starts =>
        other (numeral.digits sign (List.mem_of_head? starts))
      rw [integer?_unsigned (no_sign (by rw [isDigit_ten_iff]; decide))
        (no_sign (by rw [isDigit_ten_iff]; decide)), natural?_eq_some_iff.2 ⟨numeral, rfl⟩]
      rfl

/-! ### Writing numerals -/

theorem digitValue?_digitChar {value : Nat} (small : value < 16) :
    digitValue? (Nat.digitChar value) = some value := by
  have each : ∀ v : Fin 16, digitValue? (Nat.digitChar v) = some v.val := by decide
  exact each ⟨value, small⟩

/-- The digits of a number stand for it. -/
theorem isNumeral_toDigits (two : 2 ≤ base) (known : base ≤ 16) (n : Nat) :
    IsNumeral base (Nat.toDigits base n) ∧ number base (Nat.toDigits base n) = n := by
  have last {digit : Nat} (small : digit < base) :
      IsDigit base (Nat.digitChar digit) ∧ digitValue (Nat.digitChar digit) = digit := by
    have read := digitValue?_digitChar (Nat.lt_of_lt_of_le small known)
    exact ⟨⟨digit, read, small⟩, by rw [digitValue, read, Option.getD_some]⟩
  induction n using Nat.strong_induction_on with
  | h n ih =>
    by_cases small : n < base
    · rw [Nat.toDigits_of_lt_base small, number_cons, (last small).2]
      exact ⟨⟨List.cons_ne_nil _ _, by simpa using (last small).1⟩, by simp⟩
    · have below : n / base < n := Nat.div_lt_self (by omega) two
      obtain ⟨front, value⟩ := ih _ below
      obtain ⟨digit, unit⟩ := last (Nat.mod_lt n (by omega))
      rw [Nat.toDigits_of_base_le two (by omega), number_append, value, number_cons, unit]
      refine ⟨⟨by simp, fun c member => ?_⟩, ?_⟩
      · rcases List.mem_append.1 member with former | here
        · exact front.digits c former
        · rw [List.mem_singleton.1 here]
          exact digit
      · simpa [Nat.mul_comm] using Nat.div_add_mod n base

/-- An integer is written in one of its spellings. -/
theorem spellsInteger_toString (value : Int) : SpellsInteger (toString value).toList value := by
  have digits (n : Nat) : (toString n).toList = Nat.toDigits 10 n := by
    rw [Nat.toString_eq_ofList_toDigits, String.toList_ofList]
  cases value with
  | ofNat n =>
    obtain ⟨numeral, value⟩ := @isNumeral_toDigits 10 (by decide) (by decide) n
    have spells := SpellsInteger.unsigned numeral
    rw [value, ← digits] at spells
    exact spells
  | negSucc n =>
    obtain ⟨numeral, value⟩ := @isNumeral_toDigits 10 (by decide) (by decide) (n + 1)
    have spells := SpellsInteger.minus numeral
    rw [value, ← digits] at spells
    have written : (toString (Int.negSucc n)).toList = '-' :: (toString (n + 1)).toList := by
      change ("-" ++ toString (n + 1)).toList = _
      rw [String.toList_append]
      rfl
    rw [written]
    exact spells

/-- A decimal integer starts with a sign or a digit, and everything after that is a digit. -/
theorem integer?_parts {text : List Char} {value : Int} (h : integer? text = some value) :
    ∃ first rest, text = first :: rest ∧ (first = '+' ∨ first = '-' ∨ first.isDigit = true) ∧
      ∀ c ∈ rest, c.isDigit = true := by
  have digit {digits : List Char} (numeral : IsNumeral 10 digits) :
      ∀ c ∈ digits, c.isDigit = true := fun c member => isDigit_ten_iff.1 (numeral.digits c member)
  cases integer?_eq_some_iff.1 h with
  | plus numeral => exact ⟨'+', _, rfl, Or.inl rfl, digit numeral⟩
  | minus numeral => exact ⟨'-', _, rfl, Or.inr (Or.inl rfl), digit numeral⟩
  | unsigned numeral =>
    obtain ⟨first, rest, rfl⟩ := List.exists_cons_of_ne_nil numeral.filled
    obtain ⟨here, later⟩ := List.forall_mem_cons.1 (digit numeral)
    exact ⟨first, rest, rfl, Or.inr (Or.inr here), later⟩

theorem integer?_chars {text : List Char} {value : Int} (h : integer? text = some value) :
    ∀ c ∈ text, c = '+' ∨ c = '-' ∨ c.isDigit = true := by
  obtain ⟨first, rest, rfl, start, digits⟩ := integer?_parts h
  intro c member
  rcases List.mem_cons.1 member with rfl | later
  · exact start
  · exact Or.inr (Or.inr (digits c later))

/-! ### Bytes -/

/-- A number as a byte, if it is none too large. -/
def asByte? (value : Nat) : Option UInt8 := if value < 256 then some (UInt8.ofNat value) else none

theorem asByte?_eq_some_iff {value : Nat} {b : UInt8} : asByte? value = some b ↔ value = b.toNat := by
  have small := b.toNat_lt
  unfold asByte?
  split
  · rename_i below
    rw [Option.some.injEq, ← UInt8.toNat_inj, UInt8.toNat_ofNat_of_lt' below]
  · simp only [reduceCtorEq, false_iff]
    omega

theorem byte?_plus (base : Nat) (digits : List Char) :
    byte? base ('+' :: digits) = (natural? base digits).bind asByte? := by
  simp only [byte?]
  cases natural? base digits <;> rfl

theorem byte?_unsigned (base : Nat) (other : text.head? ≠ some '+') :
    byte? base text = (natural? base text).bind asByte? := by
  unfold byte?
  split
  · exact absurd rfl other
  · dsimp only
    cases natural? base text <;> rfl

theorem natural?_bind_asByte? {b : UInt8} : (natural? base text).bind asByte? = some b ↔
    IsNumeral base text ∧ number base text = b.toNat := by
  simp only [Option.bind_eq_some_iff, natural?_eq_some_iff, asByte?_eq_some_iff]
  constructor
  · rintro ⟨value, ⟨numeral, rfl⟩, same⟩
    exact ⟨numeral, same⟩
  · rintro ⟨numeral, same⟩
    exact ⟨_, ⟨numeral, rfl⟩, same⟩

theorem not_isDigit_plus (base : Nat) : ¬ IsDigit base '+' := by
  rintro ⟨value, read, _⟩
  cases read

theorem byte?_eq_some_iff {b : UInt8} : byte? base text = some b ↔ SpellsByte base text b := by
  constructor
  · intro h
    by_cases sign : text.head? = some '+'
    · obtain ⟨digits, rfl⟩ := List.head?_eq_some_iff.1 sign
      rw [byte?_plus, natural?_bind_asByte?] at h
      exact .plus h.1 h.2
    · rw [byte?_unsigned base sign, natural?_bind_asByte?] at h
      exact .unsigned h.1 h.2
  · intro spells
    cases spells with
    | plus numeral value =>
      rw [byte?_plus, natural?_bind_asByte?]
      exact ⟨numeral, value⟩
    | unsigned numeral value =>
      have no_sign : text.head? ≠ some '+' := fun sign =>
        not_isDigit_plus base (numeral.digits '+' (List.mem_of_head? sign))
      rw [byte?_unsigned base no_sign, natural?_bind_asByte?]
      exact ⟨numeral, value⟩

end SicXe.Text
