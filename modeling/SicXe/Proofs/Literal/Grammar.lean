import SicXe.Proofs.Literal.Value
import SicXe.Proofs.Text.Case

/-!
# The grammar of constants

What a constant may look like, and the bytes of each form, told without the reader (`Spells`). Exactly
these texts are read, as what they spell (`form_iff_spells`). Bytes written in hex spell themselves
(`spells_hexConstant`), so that every constant can be written as hex digits.
-/
namespace SicXe.Literal

open Text (IsNumeral SpellsInteger)

variable {text : List Char} {kind : Kind} {bytes : List UInt8}

/-- The spellings of constants: decimal integers in the range of values, and characters or hex digits
between apostrophes, which may be literals of the pool. -/
inductive Spells : List Char → Kind → List UInt8 → Prop where
  | decimal {text : List Char} {value : Int} {bytes : List UInt8} (integer : SpellsInteger text value)
      (fits : Word.fits value = true) (shortest : Shortest bytes (value % 2 ^ 24).toNat) :
      Spells text .decimal bytes
  | string (pooled : Bool) {marker : Char} {inner : List Char} (mark : marker = 'C' ∨ marker = 'c')
      (filled : inner ≠ []) (ascii : ∀ c ∈ inner, c.toNat < 128) :
      Spells (characters pooled marker inner) (quotedKind pooled false) (codes inner)
  | number (pooled : Bool) {marker : Char} {digits : List Char} {bytes : List UInt8}
      (mark : marker = 'X' ∨ marker = 'x') (numeral : IsNumeral 16 digits)
      (halves : nibbles bytes = paddedValues digits) :
      Spells (characters pooled marker digits) (quotedKind pooled true) bytes

/-- A number has one shortest sequence of bytes. -/
theorem Shortest.unique {a b : List UInt8} {n : Nat} (first : Shortest a n) (second : Shortest b n) :
    a = b := by
  have length : a.length = b.length := Nat.le_antisymm
    (first.least b second.filled second.value) (second.least a first.filled first.value)
  have digits (bytes : List UInt8) : ∀ d ∈ (bytes.map UInt8.toNat).reverse, d < 256 := by
    intro d member
    obtain ⟨b, _, rfl⟩ := List.mem_map.1 (List.mem_reverse.1 member)
    exact b.toNat_lt
  have same : (a.map UInt8.toNat).reverse = (b.map UInt8.toNat).reverse :=
    Nat.ofDigits_inj_of_len_eq (by decide) (by simpa using length) (digits a) (digits b)
      (first.value.trans second.value.symm)
  exact List.map_injective_iff.2 (fun _ _ => UInt8.toNat_inj.1) (List.reverse_injective same)

/-! ### Reading what is spelled -/

theorem form_of_spells (spells : Spells text kind bytes) : Form text kind bytes := by
  cases spells with
  | @decimal _ value _ integer fits shortest =>
    have read := decimal?_eq_some_iff.2 ⟨integer, fits⟩
    have unpooled := Text.integer?_unpooled (Text.integer?_eq_some_iff.2 integer)
    rw [shortest.unique (shortest_decimalBytes value)]
    exact .decimal unpooled read
  | string pooled mark filled ascii =>
    exact .quoted pooled false ((Text.toUpper_eq_letter_iff (by decide) rfl _).2 mark) filled
      (characterBytes?_eq_some_iff.2 ⟨ascii, rfl⟩)
  | number pooled mark numeral halves =>
    exact .quoted pooled true ((Text.toUpper_eq_letter_iff (by decide) rfl _).2 mark) numeral.filled
      (hexBytes?_eq_some_iff.2 ⟨numeral, halves⟩)

theorem spells_of_form (form : Form text kind bytes) : Spells text kind bytes := by
  cases form with
  | decimal unpooled read =>
    obtain ⟨integer, fits⟩ := decimal?_eq_some_iff.1 read
    exact .decimal integer fits (shortest_decimalBytes _)
  | quoted pooled isNumber upper filled read =>
    cases isNumber with
    | false =>
      obtain ⟨ascii, rfl⟩ := characterBytes?_eq_some_iff.1 read
      exact .string pooled ((Text.toUpper_eq_letter_iff (by decide) rfl _).1 upper) filled ascii
    | true =>
      obtain ⟨numeral, halves⟩ := hexBytes?_eq_some_iff.1 read
      exact .number pooled ((Text.toUpper_eq_letter_iff (by decide) rfl _).1 upper) numeral halves

theorem form_iff_spells : Form text kind bytes ↔ Spells text kind bytes :=
  ⟨spells_of_form, form_of_spells⟩

/-- Exactly what is spelled as a constant is read, as that constant and in no pool. -/
theorem parse_eq_ok_iff {expression : String} {l : Literal} : parse expression = .ok l ↔
    Spells (Text.trim expression.toList) l.kind l.bytes ∧
      l.expression = Text.trimmed expression ∧ l.address = none := by
  rw [← form_iff_spells]
  constructor
  · intro parsed
    obtain ⟨form, same⟩ := form_of_parse parsed
    rw [same]
    exact ⟨form, rfl, rfl⟩
  · rintro ⟨form, written, place⟩
    obtain ⟨_, _, _, _⟩ := l
    cases written
    cases place
    exact parse_of_form form

/-- There is no constant without bytes. -/
theorem Spells.filled (spells : Spells text kind bytes) : bytes ≠ [] := by
  cases spells with
  | decimal _ _ shortest => exact shortest.filled
  | string _ _ filled _ => exact fun nothing => filled (List.map_eq_nil_iff.1 nothing)
  | @number _ _ digits _ _ numeral halves =>
    rintro rfl
    obtain ⟨_, nothing⟩ := List.append_eq_nil_iff.1 halves.symm
    exact numeral.filled (List.map_eq_nil_iff.1 nothing)

/-! ### Writing constants in hex -/

/-- Bytes as a constant in hex. -/
def hexConstant (bytes : List UInt8) : String := "X'" ++ Text.bytesHex bytes ++ "'"

theorem toList_hexConstant (bytes : List UInt8) :
    (hexConstant bytes).toList = characters false 'X' (Text.bytesHex bytes).toList := by
  rw [hexConstant, String.toList_append, String.toList_append]
  rfl

theorem spells_hexConstant (filled : bytes ≠ []) :
    Spells (Text.trim (hexConstant bytes).toList) .constantNumber bytes := by
  have numeral := isNumeral_bytesHex filled
  obtain ⟨_, halves⟩ := hexBytes?_eq_some_iff.1 (hexBytes?_bytesHex filled)
  rw [toList_hexConstant, trim_characters false (by decide)]
  exact .number false (Or.inl rfl) numeral halves

/-- Bytes in hex are read as themselves. -/
theorem parse_hexConstant (filled : bytes ≠ []) : parse (hexConstant bytes) =
    .ok ⟨Text.trimmed (hexConstant bytes), .constantNumber, bytes, none⟩ :=
  parse_eq_ok_iff.2 ⟨spells_hexConstant filled, rfl, rfl⟩

theorem same_iff_hex {a b : Literal} : same a b = true ↔ a.hex = b.hex := by
  rw [same, decide_eq_true_eq, hex, hex, bytesHex_inj]

/-- Exactly what is spelled as a constant is read as it. All bytes can be written in hex and read back, so
that a constant is the same as its bytes in hex and is told apart from others by them; and its text without
outer blanks is read as the same constant. -/
theorem parse_exact :
    (∀ (text : String) (l : Literal), parse text = .ok l ↔
      Spells (Text.trim text.toList) l.kind l.bytes ∧ l.expression = Text.trimmed text ∧
        l.address = none) ∧
    (∀ bytes, bytes ≠ [] →
      ∃ l, parse ("X'" ++ Text.bytesHex bytes ++ "'") = .ok l ∧ l.bytes = bytes) ∧
    (∀ (text : String) (l : Literal), parse text = .ok l →
      (∃ again, parse ("X'" ++ l.hex ++ "'") = .ok again ∧ same again l = true) ∧
      ∃ again, parse l.expression = .ok again ∧ again.kind = l.kind ∧ again.bytes = l.bytes ∧
        again.value = l.value) ∧
    ∀ a b, same a b = true ↔ a.hex = b.hex := by
  refine ⟨fun _ _ => parse_eq_ok_iff, fun _ filled => ⟨_, parse_hexConstant filled, rfl⟩, ?_,
    fun _ _ => same_iff_hex⟩
  intro text l parsed
  obtain ⟨spells, written, _⟩ := parse_eq_ok_iff.1 parsed
  have again := parse_trim text
  rw [parsed, ← Text.trimmed, ← written] at again
  exact ⟨⟨_, parse_hexConstant spells.filled, decide_eq_true rfl⟩, l, again, rfl, rfl, rfl⟩

/-- A literal of the pool that has an apostrophe inside. -/
theorem parse_exact_apostrophe : ∃ l,
    parse " =c'it's' " = .ok l ∧ l.kind = .pooledString ∧ l.hex = "69742773" ∧
    ∃ again, parse "X'69742773'" = .ok again ∧ again.bytes = l.bytes ∧ same again l = true := by
  let l : Literal := ⟨"=c'it's'", .pooledString, [0x69, 0x74, 0x27, 0x73], none⟩
  have read : characterBytes? "it's".toList = some l.bytes := rfl
  have spelled : Spells (Text.trim " =c'it's' ".toList) l.kind l.bytes :=
    @Spells.string true 'c' "it's".toList (Or.inr rfl) (by decide) (characterBytes?_eq_some_iff.1 read).1
  have parsed : parse " =c'it's' " = .ok l := (parse_exact.1 _ l).2 ⟨spelled, rfl, rfl⟩
  obtain ⟨again, parsed', bytes⟩ := parse_exact.2.1 l.bytes (by decide)
  have written : again.hex = l.hex := congrArg Text.bytesHex bytes
  exact ⟨l, parsed, rfl, rfl, again, parsed', bytes, (parse_exact.2.2.2 again l).2 written⟩

end SicXe.Literal
