import SicXe.Listing.Row
import SicXe.Proofs.Assembly.Settle
import SicXe.Proofs.Literal.Hex

/-!
# Where the bar of a row stands

A reader sees a row without its escape sequences (`withoutEscapes`). What stands before the bar of a row is
its first span, which has neither bars nor escapes of its own, so the bar is as far right as this span is
wide (`bar?_cons`). The mark of a faulty line fills the margin. The address of a line has its six digits
(`length_hexField`), but its length has a field for five characters, and in a space of 24 bits lengths have
up to eight digits: the bar stays in its column exactly as long as they fit (`bar?_resolvedRow_eq_iff`).
-/
namespace SicXe

namespace Text

/-! ### Escape sequences -/

/-- The character that escape sequences start with; they end with an `m`. -/
def escapeMark : Char := '\x1b'

/-- The characters outside escape sequences, from inside or outside of one on. -/
def outsideEscapes : Bool → List Char → List Char
  | _, [] => []
  | true, c :: rest => outsideEscapes (c ≠ 'm') rest
  | false, c :: rest =>
    if c = escapeMark then outsideEscapes true rest else c :: outsideEscapes false rest

def withoutEscapes (text : List Char) : List Char := outsideEscapes false text

variable {text : List Char} {code : String} {span : Span}

theorem withoutEscapes_append (plain : escapeMark ∉ text) (rest : List Char) :
    withoutEscapes (text ++ rest) = text ++ withoutEscapes rest := by
  induction text with
  | nil => rfl
  | cons c text ih =>
    obtain ⟨other, later⟩ := List.ne_and_not_mem_of_not_mem_cons plain
    rw [List.cons_append, withoutEscapes, outsideEscapes, if_neg (Ne.symm other), ← withoutEscapes,
      ih later, List.cons_append]

theorem outsideEscapes_append (inside : 'm' ∉ text) (rest : List Char) :
    outsideEscapes true (text ++ 'm' :: rest) = withoutEscapes rest := by
  induction text with
  | nil => rfl
  | cons c text ih =>
    obtain ⟨other, later⟩ := List.ne_and_not_mem_of_not_mem_cons inside
    rw [List.cons_append, outsideEscapes, decide_eq_true (Ne.symm other), ih later]

theorem withoutEscapes_escape (plain : 'm' ∉ code.toList) (rest : List Char) :
    withoutEscapes ((escape code).toList ++ rest) = withoutEscapes rest := by
  have whole : (escape code).toList ++ rest = escapeMark :: ('[' :: code.toList ++ 'm' :: rest) := by
    simp [escape, escapeMark]
  rw [whole, withoutEscapes, outsideEscapes, if_pos rfl]
  exact outsideEscapes_append (by simp [plain]) rest

theorem withoutEscapes_escapes {codes : List String} (plain : ∀ code ∈ codes, 'm' ∉ code.toList)
    (rest : List Char) :
    withoutEscapes ((String.join (codes.map escape)).toList ++ rest) = withoutEscapes rest := by
  induction codes with
  | nil => simp
  | cons code codes ih =>
    obtain ⟨here, later⟩ := List.forall_mem_cons.1 plain
    rw [List.map_cons, String.join_cons, String.toList_append, List.append_assoc,
      withoutEscapes_escape here, ih later]

/-- A span is seen as its text. -/
theorem withoutEscapes_render (plain : escapeMark ∉ span.text.toList) (rest : List Char) :
    withoutEscapes (span.render.toList ++ rest) = span.text.toList ++ withoutEscapes rest := by
  have switches (code : Attribute → String) (numbers : ∀ a, 'm' ∉ (code a).toList)
      (rest : List Char) :
      withoutEscapes ((String.join (span.attributes.map fun a => escape (code a))).toList ++ rest) =
        withoutEscapes rest := by
    have escapes := @withoutEscapes_escapes (span.attributes.map code)
      (List.forall_mem_map.2 fun a _ => numbers a) rest
    rwa [List.map_map] at escapes
  have on := switches Attribute.onCode fun a => by cases a <;> decide
  have off := switches Attribute.offCode fun a => by cases a <;> decide
  rw [Span.render, String.toList_append, String.toList_append, List.append_assoc, List.append_assoc,
    on, withoutEscapes_append plain, off]

/-! ### Fields -/

theorem length_padRight (width : Nat) (text : String) :
    (padRight width text).length = max width text.length := by
  simp only [padRight, String.length_append, String.length_ofList, List.length_replicate]
  omega

theorem length_padLeft (width : Nat) (fill : Char) (text : String) :
    (padLeft width fill text).length = max width text.length := by
  simp only [padLeft, String.length_append, String.length_ofList, List.length_replicate]
  omega

/-- An address has at most six hex digits. -/
theorem length_hexField {n : Int} (address : Word.isAddress n = true) :
    (hexField .bits32 n).length = 6 := by
  have low := Word.isAddress_iff.1 address
  have small : Word.unsigned .bits32 n < 16 ^ 6 := by
    simp only [Word.unsigned, Word.Width.modulus, Word.maxAddress] at low ⊢
    omega
  have digits := (Nat.length_toDigits_le_iff (by decide) (by decide)).2 small
  rw [hexField, length_padLeft, String.length_ofList, upperHex, List.length_map]
  exact Nat.max_eq_left digits

/-- An integer of at most so many characters, the sign among them. -/
theorem length_toString_le_iff (n : Int) {width : Nat} (room : 0 < width) :
    (toString n).length ≤ width + 1 ↔ -10 ^ width < n ∧ n < 10 ^ (width + 1) := by
  have natural (n : Nat) {width : Nat} (room : 0 < width) :
      (toString n).length ≤ width ↔ n < 10 ^ width := Nat.length_repr_le_iff room
  have positive : 0 < 10 ^ width := Nat.pow_pos (by decide)
  have cast (k : Nat) : ((10 ^ k : Nat) : Int) = 10 ^ k := Int.natCast_pow 10 k
  have shorter := Int.ofNat_le.2 (Nat.pow_le_pow_right (by decide : 0 < 10) (Nat.le_succ width))
  rw [← cast, ← cast]
  cases n with
  | ofNat n =>
    have written : toString (Int.ofNat n) = toString n := rfl
    rw [written, natural n (Nat.succ_pos width), Int.ofNat_eq_natCast]
    omega
  | negSucc n =>
    have written : toString (Int.negSucc n) = "-" ++ toString (n + 1) := rfl
    have digits := natural (n + 1) room
    have sign : "-".length = 1 := rfl
    rw [written, String.length_append, sign, Int.negSucc_eq]
    omega

end Text

namespace Listing

open Assembly (ResolvedLine)
open Text (Span Styled padRight withoutEscapes escapeMark)

/-- The column of the first bar that a reader sees. -/
def bar? (row : Styled) : Option Nat := (withoutEscapes row.render.toList).idxOf? '|'

/-- Characters that do not show as bars and do not start escape sequences. -/
def IsField (text : List Char) : Prop := ∀ c ∈ text, c ≠ escapeMark ∧ c ≠ '|'

instance (text : List Char) : Decidable (IsField text) := List.decidableBAll _ text

theorem isField_append {first second : List Char} :
    IsField (first ++ second) ↔ IsField first ∧ IsField second := List.forall_mem_append

theorem isField_replicate (n : Nat) {c : Char} (h : IsField [c]) : IsField (List.replicate n c) := by
  intro other member
  rw [List.eq_of_mem_replicate member]
  exact h c (List.mem_singleton.2 rfl)

theorem isField_of_isNumeral {base : Nat} {text : List Char} (numeral : Text.IsNumeral base text) :
    IsField text := by
  intro c member
  obtain ⟨value, read, _⟩ := numeral.digits c member
  constructor
  · rintro rfl
    cases read
  · rintro rfl
    cases read

theorem isField_toString (n : Int) : IsField (toString n).toList := by
  intro c member
  have read := Text.integer?_eq_some_iff.2 (Text.spellsInteger_toString n)
  have sign_or_digit := Text.integer?_chars read c member
  constructor
  · rintro rfl
    exact absurd sign_or_digit (by decide)
  · rintro rfl
    exact absurd sign_or_digit (by decide)

theorem isField_margin (address length : Int) : IsField (margin address length).toList := by
  have blanks (n : Nat) : IsField (List.replicate n ' ') := isField_replicate n (by decide)
  have zeros (n : Nat) : IsField (List.replicate n '0') := isField_replicate n (by decide)
  have digits (n : Nat) : IsField (Text.upperHex n) := isField_of_isNumeral (Text.isNumeral_upperHex n)
  simp only [margin, Text.hexField, Text.padLeft, Text.padRight, String.toList_append,
    String.toList_ofList, isField_append]
  exact ⟨⟨⟨⟨by decide, zeros _, digits _⟩, by decide⟩, isField_toString length, blanks _⟩, by decide⟩

/-- The length of a line has room for five characters. -/
theorem length_margin {address : Int} (located : Word.isAddress address = true) (length : Int) :
    (margin address length).length = max marginWidth (11 + (toString length).length) := by
  have brackets : "[".length = 1 ∧ "] +".length = 3 ∧ " ".length = 1 := ⟨rfl, rfl, rfl⟩
  simp only [margin, String.length_append, Text.length_hexField located, Text.length_padRight,
    brackets, marginWidth]
  omega

theorem idxOf?_append_of_not_mem {text : List Char} {c : Char} (absent : c ∉ text) (rest : List Char) :
    (text ++ c :: rest).idxOf? c = some text.length := by
  induction text with
  | nil => simp [List.idxOf?_cons]
  | cons other text ih =>
    obtain ⟨different, later⟩ := List.ne_and_not_mem_of_not_mem_cons absent
    simp [List.idxOf?_cons, Ne.symm different, ih later]

/-- The bar stands behind the first span of a row, if the second one starts with it. -/
theorem bar?_cons {first : Span} {text : String} {more : Styled} (field : IsField first.text.toList) :
    bar? (first :: .of ("| " ++ text) :: more) = some first.text.length := by
  have plain : escapeMark ∉ first.text.toList := fun member => (field _ member).1 rfl
  have clear : '|' ∉ first.text.toList := fun member => (field _ member).2 rfl
  have after : (Styled.render (.of ("| " ++ text) :: more)).toList =
      '|' :: ' ' :: (text.toList ++ (Styled.render more).toList) := by
    simp [Styled.render, Span.render, Span.of]
  have seen (text : List Char) : withoutEscapes ('|' :: text) = '|' :: withoutEscapes text := rfl
  rw [bar?, Styled.render, List.map_cons, String.join_cons, String.toList_append,
    Text.withoutEscapes_render plain, ← Styled.render, after, seen, idxOf?_append_of_not_mem clear,
    String.length_toList]

/-! ### Rows -/

theorem bar?_resolvedRow {l : ResolvedLine} (located : Word.isAddress l.address = true) :
    bar? (resolvedRow l) = some (max marginWidth (11 + (toString l.length).length)) := by
  rw [← length_margin located, resolvedRow, String.append_assoc]
  exact bar?_cons (isField_margin l.address l.length)

/-- The bar is in its column exactly if the length has no more characters than its field. -/
theorem bar?_resolvedRow_eq_iff {l : ResolvedLine} (located : Word.isAddress l.address = true) :
    bar? (resolvedRow l) = some marginWidth ↔ -9999 ≤ l.length ∧ l.length ≤ 99999 := by
  have characters := Text.length_toString_le_iff l.length (by decide : 0 < 4)
  rw [bar?_resolvedRow located, Option.some.injEq, marginWidth]
  omega

/-- The mark of a faulty line fills the margin. -/
theorem bar?_faultRow (f : Fault) : bar? (faultRow f) = some marginWidth := by
  have mark : IsField (padRight marginWidth "[??????] !!").toList := by decide
  rw [faultRow, markedRow, String.append_assoc, String.append_assoc]
  exact bar?_cons mark

end Listing

/-! ### Programs -/

namespace Assembly

open Listing (bar? marginWidth faultRow resolvedRow)

/-- A line starts inside the address space, and goes no further than from one end of it to the other. -/
structure ResolvedLine.Inside (l : ResolvedLine) : Prop where
  address : Word.isAddress l.address = true
  length : -Word.maxAddress ≤ l.length ∧ l.length ≤ Word.maxAddress

theorem Resolution.inside {counter : Int} {line : Nat} {text : String} {s : Source.Statement}
    {t t' : Tables} {l : ResolvedLine} {next : Int}
    (h : Resolution counter line text s t l next t') (address : Word.isAddress counter = true) :
    l.Inside where
  address := h.address ▸ address
  length := by
    have from_here := Word.isAddress_iff.1 address
    have to_there := Word.isAddress_iff.1 h.isAddress
    rw [h.length, lengthOf]
    split <;> omega

namespace Assembler

theorem inside_run {catalog : Catalog} {seeded : SymbolTable} {policy : Policy}
    (built : seeded.Built) (lines : List String) :
    ∀ l ∈ ((new catalog seeded policy).run lines).resolved, l.Inside := by
  intro l member
  have reached := reachable_run catalog seeded policy lines
  obtain ⟨former, there, rfl⟩ := reached.settled_of_mem built member
  have inside := reached.forall_resolved built
    (fun wf _ resolution => resolution.inside wf.counter) former there
  rw [settled_frame]
  exact ⟨inside.address, inside.length⟩

end Assembler

/-- Where the bars are in the rows of a program: in one column for all faulty lines, and for all lines
whose length has five characters at most. -/
structure Program.Bars (p : Program) : Prop where
  faults : ∀ f ∈ p.faults, bar? (faultRow f) = some marginWidth
  resolved : ∀ l ∈ p.resolved,
    bar? (resolvedRow l) = some (max marginWidth (11 + (toString l.length).length))
  aligned : ∀ l ∈ p.resolved,
    (bar? (resolvedRow l) = some marginWidth ↔ -9999 ≤ l.length ∧ l.length ≤ 99999)
  /-- A length has as many digits as an address, and a sign if the size of a constant has come round. -/
  lengths : ∀ l ∈ p.resolved, -Word.maxAddress ≤ l.length ∧ l.length ≤ Word.maxAddress

namespace Assembler

theorem run_bars {catalog : Catalog} {seeded : SymbolTable} {policy : Policy} (built : seeded.Built)
    (lines : List String) : ((new catalog seeded policy).run lines).Bars := by
  have inside := @inside_run catalog seeded policy built lines
  exact {
    faults := fun f _ => Listing.bar?_faultRow f
    resolved := fun l member => Listing.bar?_resolvedRow (inside l member).address
    aligned := fun l member => Listing.bar?_resolvedRow_eq_iff (inside l member).address
    lengths := fun l member => (inside l member).length }

/-- Lines whose lengths fill their field and stand out of it, around a faulty one. -/
theorem run_bars_of_widths :
    let p := (new .empty .empty .recover).run ["RESB 99999", "WORD 1+2+3", "RESB 16000000"]
    p.resolved.map (bar? ∘ resolvedRow) = [some 16, some 19] ∧
    p.faults.map (bar? ∘ faultRow) = [some 16] ∧ p.Bars := by
  refine ⟨by decide +kernel, by decide +kernel, ?_⟩
  exact run_bars .empty ["RESB 99999", "WORD 1+2+3", "RESB 16000000"]

/-- A reservation of six digits pushes the bar out of its column. -/
theorem bar_of_long_reservation :
    let p := (new .empty .empty .abort).run ["RESB 100000"]
    p.resolved.map (bar? ∘ resolvedRow) = [some 17] ∧
    ¬ ∀ l ∈ p.resolved, bar? (resolvedRow l) = some marginWidth := by decide +kernel

end Assembler

end Assembly

end SicXe
