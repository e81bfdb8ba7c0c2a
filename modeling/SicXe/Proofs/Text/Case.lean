import SicXe.Proofs.Symbol.Label
import SicXe.Proofs.Text.Numeral
import SicXe.Source.Columns
import SicXe.Text.Numeral

/-!
# Capitals

Reading a text written in capitals gives what reading the text gives, in capitals: its blanks, quotes,
signs and digits are where they were. `toUpper_eq_iff` is the reason, together with the digits from `a`
to `f` having the values of those from `A` to `F`.
-/
namespace SicXe.Text

/-- A text in capitals. -/
def upper (text : List Char) : List Char := text.map Char.toUpper

@[simp] theorem upper_cons (c : Char) (rest : List Char) :
    upper (c :: rest) = c.toUpper :: upper rest := rfl

@[simp] theorem isEmpty_upper (text : List Char) : (upper text).isEmpty = text.isEmpty :=
  List.isEmpty_map

@[simp] theorem upper_reverse (text : List Char) : upper text.reverse = (upper text).reverse :=
  List.map_reverse

/-! ### Characters -/

/-- A character that is no letter is the capital of itself alone. -/
theorem toUpper_eq_iff {c : Char} (other : c.isAlpha = false) (d : Char) : d.toUpper = c ↔ d = c := by
  have not_letter : ¬ ((65 ≤ c.toNat ∧ c.toNat ≤ 90) ∨ (97 ≤ c.toNat ∧ c.toNat ≤ 122)) := by
    rw [← Label.isAlpha_iff, other]
    exact Bool.false_ne_true
  rcases Label.toUpper_cases d with ⟨same, _⟩ | ⟨lower, high, shifted⟩
  · rw [same]
  · constructor
    · rintro rfl
      omega
    · rintro rfl
      omega

/-- A capital letter is the capital of itself and of its small letter. -/
theorem toUpper_eq_letter_iff {capital small : Char} (letter : 65 ≤ capital.toNat ∧ capital.toNat ≤ 90)
    (pair : small.toNat = capital.toNat + 32) (c : Char) :
    c.toUpper = capital ↔ c = capital ∨ c = small := by
  simp only [← Char.toNat_inj, pair]
  rcases Label.toUpper_cases c with ⟨same, _⟩ | ⟨lower, high, shifted⟩
  · rw [same]
    omega
  · omega

/-- The letters that change are those from `A` to `Z`, and they become those from `a` to `z`. -/
theorem toLower_cases (c : Char) :
    (c.toLower = c ∧ ¬ (65 ≤ c.toNat ∧ c.toNat ≤ 90)) ∨
      (65 ≤ c.toNat ∧ c.toNat ≤ 90 ∧ c.toLower.toNat = c.toNat + 32) := by
  unfold Char.toLower
  split
  · rename_i capital
    have bounds : 65 ≤ c.val.toNat ∧ c.val.toNat ≤ 90 := capital
    refine Or.inr ⟨bounds.1, bounds.2, ?_⟩
    change (c.val + ('a'.val - 'A'.val)).toNat = c.val.toNat + 32
    rw [UInt32.toNat_add]
    have shift : ('a'.val - 'A'.val).toNat = 32 := by decide
    omega
  · rename_i other
    exact Or.inl ⟨rfl, other⟩

theorem toLower_eq_iff {small : Char} (lower : small.toLower = small) (c : Char) :
    c.toLower = small ↔ c = small ∨ c = small.toUpper := by
  have not_capital : ¬ (65 ≤ small.toNat ∧ small.toNat ≤ 90) := by
    rcases toLower_cases small with ⟨_, other⟩ | ⟨_, _, shifted⟩
    · exact other
    · rw [lower] at shifted
      omega
  simp only [← Char.toNat_inj]
  rcases toLower_cases c with ⟨same, other⟩ | ⟨low, high, shifted⟩ <;>
    rcases Label.toUpper_cases small with ⟨same', other'⟩ | ⟨low', high', shifted'⟩
  · rw [same, same']
    omega
  · rw [same, shifted']
    omega
  · rw [shifted, same']
    omega
  · rw [shifted, shifted']
    omega

theorem isBlank_toUpper (c : Char) : isBlank c.toUpper = isBlank c := by
  rcases Label.toUpper_cases c with ⟨same, _⟩ | ⟨lower, high, shifted⟩
  · rw [same]
  · have letter : Label.isLabelChar c = true := by
      rw [Label.isLabelChar_iff, Label.isAlpha_iff]
      exact Or.inl (Or.inr ⟨lower, high⟩)
    have letter' : Label.isLabelChar c.toUpper = true := by
      rw [Label.isLabelChar_toUpper]
      exact letter
    rw [Label.isBlank_of_isLabelChar letter, Label.isBlank_of_isLabelChar letter']

theorem digitValue?_toUpper (c : Char) : digitValue? c.toUpper = digitValue? c := by
  refine Option.ext fun value => ?_
  rw [digitValue?_eq_some_iff, digitValue?_eq_some_iff]
  rcases Label.toUpper_cases c with ⟨same, _⟩ | ⟨lower, high, shifted⟩
  · rw [same]
  · -- A small letter has the value of its capital, and neither of them is a decimal digit.
    constructor
    · rintro (decimal | small | capital)
      · exfalso
        omega
      · exfalso
        omega
      · exact Or.inr (Or.inl (by omega))
    · rintro (decimal | small | capital)
      · exfalso
        omega
      · exact Or.inr (Or.inr (by omega))
      · exfalso
        omega

/-! ### Blanks and words -/

theorem dropWhile_upper {p : Char → Bool} (blind : ∀ c, p c.toUpper = p c) (text : List Char) :
    (upper text).dropWhile p = upper (text.dropWhile p) := by
  have same : p ∘ Char.toUpper = p := funext blind
  rw [upper, List.dropWhile_map, same]
  rfl

theorem trimStart_upper (text : List Char) : trimStart (upper text) = upper (trimStart text) :=
  dropWhile_upper isBlank_toUpper text

@[simp] theorem trim_upper (text : List Char) : trim (upper text) = upper (trim text) := by
  rw [trim, trimStart_upper, trimEnd, ← upper_reverse, dropWhile_upper isBlank_toUpper,
    ← upper_reverse]
  rfl

theorem consWord_upper (word : List Char) (words : List (List Char)) :
    consWord (upper word) (words.map upper) = (consWord word words).map upper := by
  unfold consWord
  rw [isEmpty_upper]
  split <;> rfl

theorem splitQuoted_upper {isQuote : Char → Bool} (blind : ∀ c, isQuote c.toUpper = isQuote c)
    (quoted : Bool) (text : List Char) :
    splitQuoted isQuote quoted (upper text) =
      (upper (splitQuoted isQuote quoted text).1,
        (splitQuoted isQuote quoted text).2.map upper) := by
  induction text generalizing quoted with
  | nil => rfl
  | cons c rest ih =>
    simp only [upper_cons, splitQuoted, blind, isBlank_toUpper, ih]
    split
    · rw [consWord_upper]
      rfl
    · rfl

theorem quotedWords_upper {isQuote : Char → Bool} (blind : ∀ c, isQuote c.toUpper = isQuote c)
    (text : List Char) :
    quotedWords isQuote (upper text) = (quotedWords isQuote text).map upper := by
  rw [quotedWords, splitQuoted_upper blind, consWord_upper]
  rfl

theorem splitAt_upper {separator : Char} (other : separator.isAlpha = false) (text : List Char) :
    splitAt separator (upper text) = (splitAt separator text).map upper := by
  induction text with
  | nil => rfl
  | cons c rest ih =>
    simp only [upper_cons, splitAt, toUpper_eq_iff other, ih]
    split
    · rfl
    · cases splitAt separator rest <;> rfl

/-! ### Numerals -/

theorem digitsOnto_upper (base value : Nat) (text : List Char) :
    digitsOnto base value (upper text) = digitsOnto base value text := by
  induction text generalizing value with
  | nil => rfl
  | cons c rest ih =>
    simp only [upper_cons, digitsOnto, digitIn?, digitValue?_toUpper, ih]

theorem natural?_upper (base : Nat) (text : List Char) :
    natural? base (upper text) = natural? base text := by
  rw [natural?, natural?, isEmpty_upper, digitsOnto_upper]

@[simp] theorem integer?_upper (text : List Char) : integer? (upper text) = integer? text := by
  cases text with
  | nil => rfl
  | cons c rest =>
    by_cases plus : c = '+'
    · subst plus
      exact congrArg (Option.map Int.ofNat) (natural?_upper 10 rest)
    · by_cases minus : c = '-'
      · subst minus
        exact congrArg (Option.map fun value => -Int.ofNat value) (natural?_upper 10 rest)
      · have plus' : c.toUpper ≠ '+' := fun same => plus ((toUpper_eq_iff rfl c).1 same)
        have minus' : c.toUpper ≠ '-' := fun same => minus ((toUpper_eq_iff rfl c).1 same)
        rw [upper_cons, integer?_unsigned (by simpa using plus') (by simpa using minus'),
          integer?_unsigned (by simpa using plus) (by simpa using minus), ← upper_cons,
          natural?_upper]

@[simp] theorem byte?_upper (base : Nat) (text : List Char) :
    byte? base (upper text) = byte? base text := by
  cases text with
  | nil => rfl
  | cons c rest =>
    by_cases plus : c = '+'
    · subst plus
      have signed : upper ('+' :: rest) = '+' :: upper rest := rfl
      rw [signed, byte?_plus, byte?_plus, natural?_upper]
    · have plus' : c.toUpper ≠ '+' := fun same => plus ((toUpper_eq_iff rfl c).1 same)
      rw [upper_cons, byte?_unsigned base (by simpa using plus'),
        byte?_unsigned base (by simpa using plus), ← upper_cons, natural?_upper]

end SicXe.Text
