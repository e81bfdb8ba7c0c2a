import Mathlib.Data.List.Basic
import SicXe.Literal.Basic
import SicXe.Proofs.Text.Blank
import SicXe.Proofs.Text.Numeral

/-!
# The forms of constants

A quoted constant is a marker and something between two apostrophes; what is between them may be an
apostrophe again (`quotedConstant?_eq_some_iff`). The other constants are decimal integers, which have
no characters but digits and a sign before them (`integer?_parts`). A text is parsed if it has one of the
two forms without its outer blanks (`form_of_parse`).
-/
namespace SicXe

namespace Text

/-- A decimal integer has no equals sign in front. -/
theorem integer?_unpooled {text : List Char} {value : Int} (h : integer? text = some value) :
    text.head? ≠ some '=' := by
  intro starts
  have equals := integer?_chars h '=' (List.mem_of_head? starts)
  revert equals
  decide

end Text

namespace Literal

theorem quoted?_eq_some_iff {text inner : List Char} :
    quoted? text = some inner ↔ text = quote :: (inner ++ [quote]) ∧ inner ≠ [] := by
  constructor
  · intro h
    cases text with
    | nil => cases h
    | cons first rest =>
      simp only [quoted?] at h
      split at h
      · rename_i marks
        obtain ⟨rfl, last, filled⟩ := marks
        cases h
        exact ⟨by rw [List.dropLast_append_getLast? _ last], filled⟩
      · cases h
  · rintro ⟨rfl, filled⟩
    simp [quoted?, filled]

/-- A constant of these characters. One of the pool has an equals sign in front. -/
def characters (pooled : Bool) (marker : Char) (text : List Char) : List Char :=
  (if pooled then ['='] else []) ++ marker :: quote :: (text ++ [quote])

/-- The codes of ASCII characters. -/
def codes (text : List Char) : List UInt8 := text.map fun c => .ofNat c.toNat

theorem characterBytes?_eq_some_iff {text : List Char} {bytes : List UInt8} :
    characterBytes? text = some bytes ↔ (∀ c ∈ text, c.toNat < 128) ∧ codes text = bytes := by
  simp only [characterBytes?, Option.ite_none_right_eq_some, List.all_eq_true, decide_eq_true_eq,
    Option.some.injEq, codes]

theorem trim_characters (pooled : Bool) {marker : Char} {text : List Char}
    (visible : Text.isBlank marker = false) :
    Text.trim (characters pooled marker text) = characters pooled marker text := by
  have closing : Text.isBlank quote = false := by decide
  cases pooled with
  | false => exact @Text.trim_of_visible_ends _ _ (quote :: text) visible closing
  | true => exact @Text.trim_of_visible_ends '=' _ (marker :: quote :: text) (by decide) closing

/-- The kind of a quoted constant. -/
def quotedKind (pooled number : Bool) : Kind :=
  if pooled then if number then .pooledNumber else .pooledString
  else if number then .constantNumber else .constantString

/-- What a quoted constant looks like: a marker tells how the text between the apostrophes is read. -/
theorem quotedConstant?_eq_some_iff {pooled : Bool} {text : List Char} {kind : Kind}
    {bytes : List UInt8} : quotedConstant? pooled text = some (kind, bytes) ↔
      ∃ marker inner, text = marker :: quote :: (inner ++ [quote]) ∧ inner ≠ [] ∧
        ((marker.toUpper = 'C' ∧ kind = quotedKind pooled false ∧ characterBytes? inner = some bytes) ∨
          (marker.toUpper = 'X' ∧ kind = quotedKind pooled true ∧ hexBytes? inner = some bytes)) := by
  constructor
  · intro h
    unfold quotedConstant? at h
    split at h
    · cases h
    · rename_i marker rest
      split at h
      · rename_i inner upper between
        obtain ⟨rfl, filled⟩ := quoted?_eq_some_iff.1 between
        obtain ⟨_, read, same⟩ := Option.map_eq_some_iff.1 h
        cases same
        exact ⟨marker, inner, rfl, filled, Or.inl ⟨upper, by cases pooled <;> rfl, read⟩⟩
      · rename_i inner upper between
        obtain ⟨rfl, filled⟩ := quoted?_eq_some_iff.1 between
        obtain ⟨_, read, same⟩ := Option.map_eq_some_iff.1 h
        cases same
        exact ⟨marker, inner, rfl, filled, Or.inr ⟨upper, by cases pooled <;> rfl, read⟩⟩
      · cases h
  · rintro ⟨marker, inner, rfl, filled, marked⟩
    have between : quoted? (quote :: (inner ++ [quote])) = some inner :=
      quoted?_eq_some_iff.2 ⟨rfl, filled⟩
    rcases marked with ⟨upper, rfl, read⟩ | ⟨upper, rfl, read⟩
    · simp only [quotedConstant?, upper, between, read, Option.map_some]
      cases pooled <;> rfl
    · simp only [quotedConstant?, upper, between, read, Option.map_some]
      cases pooled <;> rfl

/-- The two forms of a constant. An equals sign may stand before a quoted one only. -/
inductive Form : List Char → Kind → List UInt8 → Prop where
  | decimal {text : List Char} {value : Int} (unpooled : text.head? ≠ some '=')
      (read : decimal? text = some value) : Form text .decimal (decimalBytes value)
  | quoted (pooled number : Bool) {marker : Char} {inner : List Char} {bytes : List UInt8}
      (upper : marker.toUpper = if number then 'X' else 'C') (filled : inner ≠ [])
      (read : (if number then hexBytes? inner else characterBytes? inner) = some bytes) :
      Form ((if pooled then ['='] else []) ++ marker :: quote :: (inner ++ [quote]))
        (quotedKind pooled number) bytes

theorem Form.of_quotedConstant? {pooled : Bool} {text : List Char} {kind : Kind} {bytes : List UInt8}
    (h : quotedConstant? pooled text = some (kind, bytes)) :
    Form ((if pooled then ['='] else []) ++ text) kind bytes := by
  obtain ⟨marker, inner, rfl, filled, marked⟩ := quotedConstant?_eq_some_iff.1 h
  rcases marked with ⟨upper, rfl, read⟩ | ⟨upper, rfl, read⟩
  · exact .quoted pooled false upper filled read
  · exact .quoted pooled true upper filled read

theorem ne_equals_of_upper {marker : Char} {number : Bool}
    (upper : marker.toUpper = if number then 'X' else 'C') : marker ≠ '=' := by
  rintro rfl
  cases number <;> cases upper

/-- Exactly what has one of the forms is read as a constant. -/
theorem constant?_eq_some_iff {text : List Char} {kind : Kind} {bytes : List UInt8} :
    constant? text = some (kind, bytes) ↔ Form text kind bytes := by
  constructor
  · intro h
    unfold constant? at h
    split at h
    · exact Form.of_quotedConstant? h
    · rename_i no_equals
      split at h
      · rename_i value read
        cases h
        refine .decimal (fun starts => ?_) read
        obtain ⟨rest, rfl⟩ := List.head?_eq_some_iff.1 starts
        exact no_equals rest rfl
      · exact Form.of_quotedConstant? h
  · intro form
    cases form with
    | decimal unpooled read =>
      unfold constant?
      split
      · exact absurd rfl unpooled
      · rw [read]
    | quoted pooled number upper filled read =>
      rename_i marker inner
      have between : quotedConstant? pooled (marker :: quote :: (inner ++ [quote])) =
          some (quotedKind pooled number, bytes) := by
        rw [quotedConstant?_eq_some_iff]
        refine ⟨marker, inner, rfl, filled, ?_⟩
        cases number with
        | false => exact Or.inl ⟨upper, rfl, read⟩
        | true => exact Or.inr ⟨upper, rfl, read⟩
      cases pooled with
      | true => exact between
      | false =>
        have no_number : decimal? (marker :: quote :: (inner ++ [quote])) = none := by
          cases number? : Text.integer? (marker :: quote :: (inner ++ [quote])) with
          | none => rw [decimal?, number?]; rfl
          | some value =>
            have sign_or_digit := Text.integer?_chars number? quote (by simp)
            exact absurd sign_or_digit (by decide)
        have unmarked := ne_equals_of_upper upper
        simp only [Bool.false_eq_true, if_false, List.nil_append, constant?]
        split
        · rename_i same
          cases same
          exact absurd rfl unmarked
        · rw [no_number]
          exact between

theorem form_of_parse {text : String} {l : Literal} (parsed : parse text = .ok l) :
    Form (Text.trim text.toList) l.kind l.bytes ∧
      l = ⟨String.ofList (Text.trim text.toList), l.kind, l.bytes, none⟩ := by
  dsimp only [parse] at parsed
  split at parsed
  · rename_i kind bytes read
    cases parsed
    exact ⟨constant?_eq_some_iff.1 read, rfl⟩
  · cases parsed

theorem parse_of_form {text : String} {kind : Kind} {bytes : List UInt8}
    (form : Form (Text.trim text.toList) kind bytes) :
    parse text = .ok ⟨String.ofList (Text.trim text.toList), kind, bytes, none⟩ := by
  simp only [parse, constant?_eq_some_iff.2 form]

theorem parse_trim (text : String) : parse (String.ofList (Text.trim text.toList)) = parse text := by
  unfold parse
  rw [String.toList_ofList, Text.trim_trim]

end Literal

end SicXe
