import SicXe.Proofs.Operand.Constants

/-!
# Characters between apostrophes

Whatever ASCII characters stand between the apostrophes of a constant, its bytes are their codes, as long
as none of them is an apostrophe: a sign is quoted then, an index suffix is not at the end, and a blank is
inside. As an operand, the constant keeps the pool as it is (`resolve_characters`); with an equals sign it
is a literal of the pool (`resolve_pooled_characters`).
-/
namespace SicXe

namespace Literal

/-- The characters of a constant that can be told from its apostrophes, and are at least one. -/
structure Quotable (text : List Char) : Prop where
  filled : text ≠ []
  ascii : ∀ c ∈ text, c.toNat < 128
  no_quote : quote ∉ text

instance (text : List Char) : Decidable (Quotable text) :=
  have : Decidable (∀ c ∈ text, c.toNat < 128) := List.decidableBAll (fun c => c.toNat < 128) text
  decidable_of_iff (text ≠ [] ∧ (∀ c ∈ text, c.toNat < 128) ∧ quote ∉ text)
    ⟨fun h => ⟨h.1, h.2.1, h.2.2⟩, fun h => ⟨h.filled, h.ascii, h.no_quote⟩⟩

variable {marker : Char} {text : List Char}

theorem form_characters (pooled : Bool) (upper : marker.toUpper = 'C') (quotable : Quotable text) :
    Form (characters pooled marker text) (quotedKind pooled false) (codes text) :=
  .quoted pooled false upper quotable.filled (characterBytes?_eq_some_iff.2 ⟨quotable.ascii, rfl⟩)

end Literal

namespace Operand

open Literal (characters codes Quotable)

variable {marker : Char} {text : List Char}

/-- Behind the only quote before it, every sign of a text without quotes is quoted. -/
theorem not_joined_of_quoted {front : List Char} (no_sign : ∀ c ∈ front, c ≠ '+' ∧ c ≠ '-')
    (opened : front.count Literal.quote = 1) (plain : Literal.quote ∉ text) :
    ¬ Joined (front ++ (text ++ [Literal.quote])) := by
  rintro ⟨before, sign, after, parts, filled, mark, even⟩
  have other : sign ≠ Literal.quote := by
    rintro rfl
    rcases mark with same | same <;> cases same
  rcases List.append_eq_append_iff.1 parts with ⟨more, rfl, rest⟩ | ⟨more, rfl, rest⟩
  · -- The sign stands in the text, behind its first characters.
    rcases List.eq_nil_or_concat after with rfl | ⟨inner, last, rfl⟩
    · exact other (List.singleton_inj.1 (List.append_inj' rest rfl).2).symm
    · rw [List.concat_eq_append, ← List.cons_append, ← List.append_assoc] at rest
      have inside := (List.append_inj' rest rfl).1
      have none_more : more.count Literal.quote = 0 :=
        List.count_eq_zero.2 fun member => plain (by rw [inside]; simp [member])
      rw [List.count_append, opened, none_more] at even
      cases even
  · cases more with
    | nil =>
      rw [List.append_nil] at opened
      rw [opened] at even
      cases even
    | cons c more =>
      obtain ⟨rfl, _⟩ := List.cons.inj rest
      obtain ⟨plus, minus⟩ := no_sign sign (by simp)
      exact mark.elim plus minus

theorem not_joined_characters (pooled : Bool) (upper : marker.toUpper = 'C')
    (quotable : Quotable text) :
    ¬ Joined (characters pooled marker text) := by
  have no_sign : marker ≠ '+' ∧ marker ≠ '-' := by
    constructor <;> rintro rfl <;> cases upper
  have no_quote : marker ≠ Literal.quote := by
    rintro rfl
    cases upper
  have regrouped : characters pooled marker text =
      ((if pooled then ['='] else []) ++ [marker, Literal.quote]) ++ (text ++ [Literal.quote]) := by
    simp [characters]
  rw [regrouped]
  refine not_joined_of_quoted ?_ ?_ quotable.no_quote
  · cases pooled <;> simp [no_sign] <;> decide
  · have once : [marker, Literal.quote].count Literal.quote = 1 := by
      rw [List.count_cons_of_ne no_quote, List.count_singleton_self]
    cases pooled with
    | false => exact once
    | true => rw [List.count_append, once]; rfl

theorem trim_characters (pooled : Bool) (upper : marker.toUpper = 'C') :
    Text.trim (characters pooled marker text) = characters pooled marker text := by
  have visible : Text.isBlank marker = false := by
    rw [← Text.isBlank_toUpper, upper]
    decide
  exact Literal.trim_characters pooled visible

theorem parse_characters (pooled : Bool) (upper : marker.toUpper = 'C') (quotable : Quotable text) :
    Literal.parse (String.ofList (characters pooled marker text)) =
      .ok ⟨String.ofList (characters pooled marker text),
        Literal.quotedKind pooled false, codes text, none⟩ := by
  have read := Literal.constant?_eq_some_iff.2 (Literal.form_characters pooled upper quotable)
  simp only [Literal.parse, String.toList_ofList, trim_characters pooled upper, read]

theorem resolve_characters (upper : marker.toUpper = 'C') (quotable : Quotable text)
    (symbols : SymbolTable) (pool : LiteralPool) : ∃ o,
      resolve symbols pool (String.ofList (characters false marker text)) = .ok (o, pool) ∧
      o.kind = .addressed (.literal .constantString) ∧ o.bytes = codes text := by
  have whole := not_joined_characters false upper quotable
  rw [← trim_characters false upper] at whole
  refine ⟨_, resolve_of_unpooled_parse (parse_characters false upper quotable) ?_ rfl symbols pool,
    rfl, rfl⟩
  rw [String.toList_ofList]
  exact whole

theorem resolve_pooled_characters (upper : marker.toUpper = 'C') (quotable : Quotable text)
    (symbols : SymbolTable) (pool : LiteralPool) : ∃ o pool' stored,
      resolve symbols pool (String.ofList (characters true marker text)) = .ok (o, pool') ∧
      o.bytes = codes text ∧ pool'.get? (codes text) = some stored ∧
      o.value = stored.address.getD 0 := by
  have whole := not_joined_characters true upper quotable
  rw [← trim_characters true upper] at whole
  obtain ⟨stored, pool', evaluated, found⟩ := resolve_of_pooled_parse
    (parse_characters true upper quotable) (by rw [String.toList_ofList]; exact whole) rfl symbols pool
  exact ⟨_, pool', stored, evaluated, rfl, found, rfl⟩

end Operand

end SicXe
