import SicXe.Operand.Resolve
import SicXe.Proofs.Keys
import SicXe.Proofs.Text.Blank
import SicXe.Proofs.Text.Case

/-!
# Lists of registers

The grammar of a list of registers (`ReadsRegisters`) is stated by its parts, the texts between its commas
without their outer blanks; `resolveRegisters_eq_iff` says that it is what is read, in success and in error.
No text is both a register's name and a number, so a part has one code at most. A list is one number of two
hex digits: packing its codes by shifts is placing them in base sixteen (`packCodes_eq`), and dividing by
sixteen gives them back (`packedCodes_div`, `packedCodes_mod`).
-/
namespace SicXe

namespace Text

/-! ### Parts -/

variable {text gap : List Char}

theorem splitAt_eq_splitOn (separator : Char) (text : List Char) :
    splitAt separator text = text.splitOn separator := by
  induction text with
  | nil => rfl
  | cons c rest ih =>
    rw [splitAt, List.splitOn_cons_eq_if_modifyHead, ih]
    by_cases here : c = separator
    · simp [here]
    · simp only [if_neg here, beq_iff_eq]
      cases parts : rest.splitOn separator with
      | nil => exact absurd parts (List.splitOn_ne_nil separator rest)
      | cons first following => rfl

/-- The texts between separators, without their outer blanks. -/
def trimmedParts (separator : Char) (text : List Char) : List (List Char) :=
  (text.splitOn separator).map trim

section Separator

variable {separator : Char} (visible : isBlank separator = false)

include visible

theorem not_mem_blanks (blanks : ∀ c ∈ gap, isBlank c = true) : separator ∉ gap := by
  intro member
  rw [blanks separator member] at visible
  cases visible

/-- Blanks in front belong to the first part. -/
theorem trimmedParts_blanks_append (blanks : ∀ c ∈ gap, isBlank c = true) (text : List Char) :
    trimmedParts separator (gap ++ text) = trimmedParts separator text := by
  have clear := not_mem_blanks visible blanks
  unfold trimmedParts
  by_cases parted : separator ∈ text
  · obtain ⟨first, rest, rfl, alone⟩ := List.eq_append_cons_of_mem parted
    rw [← List.append_assoc, List.splitOn_append_cons_self_of_not_mem (by simp [clear, alone]),
      List.splitOn_append_cons_self_of_not_mem alone, List.map_cons, List.map_cons,
      trim_blanks_append blanks]
  · rw [List.splitOn_eq_singleton (by simp [clear, parted]), List.splitOn_eq_singleton parted,
      List.map_singleton, List.map_singleton, trim_blanks_append blanks]

/-- Blanks at the end belong to the last part. -/
theorem trimmedParts_append_blanks (blanks : ∀ c ∈ gap, isBlank c = true) (text : List Char) :
    trimmedParts separator (text ++ gap) = trimmedParts separator text := by
  have clear := not_mem_blanks visible blanks
  unfold trimmedParts
  by_cases parted : separator ∈ text
  · obtain ⟨last, before, reversed, alone⟩ :=
      List.eq_append_cons_of_mem (List.mem_reverse.2 parted)
    have parts : text = before.reverse ++ separator :: last.reverse := by
      rw [← List.reverse_reverse text, reversed]
      simp
    have last_clear : separator ∉ last.reverse := by simpa using alone
    have all_clear : separator ∉ last.reverse ++ gap := by simp [alone, clear]
    rw [parts, List.append_assoc, List.cons_append, List.splitOn_append_cons_self,
      List.splitOn_append_cons_self, List.map_append, List.map_append,
      List.splitOn_eq_singleton last_clear, List.splitOn_eq_singleton all_clear, List.map_singleton,
      List.map_singleton, trim_append_blanks blanks]
  · rw [List.splitOn_eq_singleton (by simp [clear, parted]), List.splitOn_eq_singleton parted,
      List.map_singleton, List.map_singleton, trim_append_blanks blanks]

theorem trimmedParts_trim (text : List Char) :
    trimmedParts separator (trim text) = trimmedParts separator text := by
  obtain ⟨lead, trail, whole, before, after⟩ := exists_blanks_trim text
  conv_rhs => rw [whole]
  rw [trimmedParts_blanks_append visible before, trimmedParts_append_blanks visible after]

end Separator

end Text

namespace Operand

/-! ### Codes -/

/-- A part that stands for a code: the name of a register in any case, or a number of at most fifteen. -/
inductive SpellsCode (part : List Char) : UInt8 → Prop where
  | name {r : Register} (named : Text.upper part = r.name.toList) : SpellsCode part r.code
  | number {n : UInt8} (spells : Text.SpellsByte 10 part n) (small : n ≤ 15) : SpellsCode part n

variable {part : List Char} {code : UInt8}

theorem ofName?_eq_some_iff {r : Register} :
    Register.ofName? (String.ofList part) = some r ↔ Text.upper part = r.name.toList := by
  have unique : (Register.all.map fun r => r.name.toList).Nodup := by decide
  have member : r ∈ Register.all := by cases r <;> decide
  rw [Register.ofName?, String.toList_ofList, find?_eq_some_iff_of_nodup unique]
  exact ⟨fun found => found.2.symm, fun named => ⟨member, named.symm⟩⟩

/-- No name is a number. -/
theorem not_spellsByte_of_name {r : Register} (named : Text.upper part = r.name.toList) (n : UInt8) :
    ¬ Text.SpellsByte 10 part n := by
  rw [← Text.byte?_eq_some_iff, ← Text.byte?_upper, named]
  have unread : Text.byte? 10 r.name.toList = none := by cases r <;> decide
  rw [unread]
  exact nofun

theorem ofName?_eq_none (unnamed : ∀ r : Register, Text.upper part ≠ r.name.toList) :
    Register.ofName? (String.ofList part) = none :=
  Option.eq_none_iff_forall_ne_some.2 fun r found => unnamed r (ofName?_eq_some_iff.1 found)

theorem SpellsCode.registerCode (spells : SpellsCode (Text.trim part) code) :
    registerCode part = .ok code := by
  unfold Operand.registerCode
  cases spells with
  | name named => simp only [ofName?_eq_some_iff.2 named]
  | @number n spells small =>
    have unnamed : Register.ofName? (String.ofList (Text.trim part)) = none :=
      ofName?_eq_none fun r named => not_spellsByte_of_name named code spells
    simp only [unnamed, Text.byte?_eq_some_iff.2 spells, if_pos small]

theorem registerCode_of_unspelled (unspelled : ∀ code, ¬ SpellsCode (Text.trim part) code) :
    registerCode part = .error (.invalidRegister (String.ofList (Text.trim part))) := by
  have unnamed : Register.ofName? (String.ofList (Text.trim part)) = none :=
    ofName?_eq_none fun r named => unspelled r.code (.name named)
  unfold Operand.registerCode
  simp only [unnamed]
  split
  · rename_i n read
    have large : ¬ n ≤ 15 := fun small =>
      unspelled n (.number (Text.byte?_eq_some_iff.1 read) small)
    rw [if_neg large]
  · rfl

theorem SpellsCode.le (spells : SpellsCode part code) : code.toNat ≤ 15 := by
  cases spells with
  | @name r named => cases r <;> decide
  | number spells small => exact small

theorem le_of_spelled {parts : List (List Char)} {codes : List UInt8}
    (spelled : List.Forall₂ SpellsCode parts codes) : ∀ code ∈ codes, code.toNat ≤ 15 := by
  induction spelled with
  | nil => simp
  | cons spells _ ih => exact List.forall_mem_cons.2 ⟨spells.le, ih⟩

/-! ### Codes of parts -/

theorem mapM_registerCode_of_spelled {parts : List (List Char)} {codes : List UInt8}
    (spelled : List.Forall₂ (fun part => SpellsCode (Text.trim part)) parts codes) :
    parts.mapM Operand.registerCode = .ok codes := by
  induction spelled with
  | nil => rfl
  | cons spells _ ih =>
    rw [List.mapM_cons, spells.registerCode, ih]
    rfl

/-- The first part without a code is the fault, whatever stands behind it. -/
theorem mapM_registerCode_of_unspelled {before : List (List Char)}
    (spelled : ∀ former ∈ before, ∃ code, SpellsCode (Text.trim former) code)
    (unspelled : ∀ code, ¬ SpellsCode (Text.trim part) code) (later : List (List Char)) :
    (before ++ part :: later).mapM Operand.registerCode =
      .error (.invalidRegister (String.ofList (Text.trim part))) := by
  induction before with
  | nil =>
    rw [List.nil_append, List.mapM_cons, registerCode_of_unspelled unspelled]
    rfl
  | cons former before ih =>
    obtain ⟨⟨code, spells⟩, others⟩ := List.forall_mem_cons.1 spelled
    rw [List.cons_append, List.mapM_cons, spells.registerCode, ih others]
    rfl

/-! ### Packed codes -/

/-- The number that has the codes as its digits; a code that is left out is zero. -/
def packedCodes (codes : List UInt8) : Int :=
  16 * (codes.getD 0 0).toNat + (codes.getD 1 0).toNat

section Codes

variable {codes : List UInt8} (small : ∀ code ∈ codes, code.toNat ≤ 15)

include small

theorem getD_le (i : Nat) : (codes.getD i 0).toNat ≤ 15 := by
  rw [List.getD_eq_getElem?_getD]
  cases here : codes[i]? with
  | none => decide
  | some code => exact small code (List.mem_of_getElem? here)

theorem packedCodes_bounds : 0 ≤ packedCodes codes ∧ packedCodes codes ≤ 255 := by
  have first := getD_le small 0
  have second := getD_le small 1
  unfold packedCodes
  omega

theorem packedCodes_div : packedCodes codes / 16 = (codes.getD 0 0).toNat := by
  have second := getD_le small 1
  unfold packedCodes
  omega

theorem packedCodes_mod : packedCodes codes % 16 = (codes.getD 1 0).toNat := by
  have second := getD_le small 1
  unfold packedCodes
  omega

/-- Shifts put the codes at their places. -/
theorem packCodes_eq (few : codes.length = 1 ∨ codes.length = 2) :
    (packCodes codes : Int) = packedCodes codes := by
  match codes, few with
  | [first], _ =>
    have word : packCodes [first] = first.toNat * 2 ^ 4 := by
      change (0 <<< 4 ||| first.toNat) <<< 4 = _
      rw [Nat.zero_shiftLeft, Nat.zero_or, Nat.shiftLeft_eq]
    have number : packedCodes [first] = 16 * first.toNat + 0 := rfl
    omega
  | [first, second], _ =>
    have below : second.toNat < 2 ^ 4 := Nat.lt_succ_of_le (small second (by simp))
    have word : packCodes [first, second] = first.toNat * 2 ^ 4 + second.toNat := by
      change ((0 <<< 4 ||| first.toNat) <<< 4 ||| second.toNat) <<< 0 = _
      rw [Nat.zero_shiftLeft, Nat.zero_or, Nat.shiftLeft_zero, ← Nat.shiftLeft_add_eq_or_of_lt below,
        Nat.shiftLeft_eq]
    have number : packedCodes [first, second] = 16 * first.toNat + second.toNat := rfl
    omega

end Codes

/-! ### Lists -/

/-- What a list of registers is read as. -/
inductive ReadsRegisters (expression : String) : Except Error Operand → Prop where
  | registers {codes : List UInt8}
      (spelled : List.Forall₂ SpellsCode (Text.trimmedParts ',' expression.toList) codes)
      (few : codes.length ≤ 2) :
      ReadsRegisters expression
        (.ok ⟨Text.trimmed expression, .registers, packedCodes codes, false, []⟩)
  /-- Too many parts are a fault of the whole list, whatever they are. -/
  | tooMany (many : 2 < (Text.trimmedParts ',' expression.toList).length) :
      ReadsRegisters expression
        (.error (.expressionSyntax (Text.trimmed expression) .registers))
  /-- Else the fault is the first part without a code. -/
  | invalid {before later : List (List Char)} {part : List Char}
      (few : (Text.trimmedParts ',' expression.toList).length ≤ 2)
      (parts : Text.trimmedParts ',' expression.toList = before ++ part :: later)
      (spelled : ∀ former ∈ before, ∃ code, SpellsCode former code)
      (unspelled : ∀ code, ¬ SpellsCode part code) :
      ReadsRegisters expression (.error (.invalidRegister (String.ofList part)))

/-- Either all parts have codes, or one is the first that has none. -/
theorem spelled_or_unspelled (parts : List (List Char)) :
    (∃ codes, List.Forall₂ SpellsCode parts codes) ∨
      ∃ before part later, parts = before ++ part :: later ∧
        (∀ former ∈ before, ∃ code, SpellsCode former code) ∧ ∀ code, ¬ SpellsCode part code := by
  induction parts with
  | nil => exact Or.inl ⟨[], .nil⟩
  | cons part rest ih =>
    by_cases spelled : ∃ code, SpellsCode part code
    · rcases ih with ⟨codes, others⟩ | ⟨before, other, later, rfl, formers, unspelled⟩
      · obtain ⟨code, spells⟩ := spelled
        exact Or.inl ⟨code :: codes, .cons spells others⟩
      · exact Or.inr ⟨part :: before, other, later, rfl,
          List.forall_mem_cons.2 ⟨spelled, formers⟩, unspelled⟩
    · exact Or.inr ⟨[], part, rest, rfl, by simp, not_exists.1 spelled⟩

theorem exists_readsRegisters (expression : String) : ∃ result, ReadsRegisters expression result := by
  by_cases many : 2 < (Text.trimmedParts ',' expression.toList).length
  · exact ⟨_, .tooMany many⟩
  · have few := Nat.le_of_not_lt many
    rcases spelled_or_unspelled (Text.trimmedParts ',' expression.toList) with
      ⟨codes, spelled⟩ | ⟨before, part, later, parts, spelled, unspelled⟩
    · exact ⟨_, .registers spelled (spelled.length_eq ▸ few)⟩
    · exact ⟨_, .invalid few parts spelled unspelled⟩

theorem ReadsRegisters.resolveRegisters {expression : String} {result : Except Error Operand}
    (reads : ReadsRegisters expression result) : resolveRegisters expression = result := by
  have filled := List.splitOn_ne_nil ',' (Text.trim expression.toList)
  have parts := Text.trimmedParts_trim (by decide : Text.isBlank ',' = false) expression.toList
  unfold Operand.resolveRegisters
  dsimp only
  rw [Text.splitAt_eq_splitOn]
  unfold Text.trimmedParts at parts
  generalize (Text.trim expression.toList).splitOn ',' = raw at filled parts ⊢
  have counted : (Text.trimmedParts ',' expression.toList).length = raw.length := by
    rw [Text.trimmedParts, ← parts, List.length_map]
  have listed (few : raw.length ≤ 2) : ¬ (raw.isEmpty = true ∨ 2 < raw.length) := by
    rw [List.isEmpty_iff]
    exact not_or.2 ⟨filled, Nat.not_lt.2 few⟩
  cases reads with
  | @registers codes spelled few =>
    have count := spelled.length_eq
    have one_or_two : codes.length = 1 ∨ codes.length = 2 := by
      have some_part := List.length_pos_iff.2 filled
      omega
    have packed := packCodes_eq (le_of_spelled spelled) one_or_two
    rw [Text.trimmedParts, ← parts, List.forall₂_map_left_iff] at spelled
    rw [if_neg (listed (by omega)), mapM_registerCode_of_spelled spelled, ← packed]
    rfl
  | tooMany many =>
    rw [if_pos (Or.inr (counted ▸ many))]
    rfl
  | @invalid before later part few split spelled unspelled =>
    rw [Text.trimmedParts, ← parts] at split
    obtain ⟨formers, others, rfl, rfl, rest⟩ := List.map_eq_append_iff.1 split
    obtain ⟨last, laters, rfl, rfl, _⟩ := List.map_eq_cons_iff.1 rest
    rw [if_neg (listed (by omega)),
      mapM_registerCode_of_unspelled (fun _ former => spelled _ (List.mem_map_of_mem former))
        unspelled]
    rfl

/-- The list of registers that a text is, or what is wrong with it. -/
theorem resolveRegisters_eq_iff {expression : String} {result : Except Error Operand} :
    resolveRegisters expression = result ↔ ReadsRegisters expression result := by
  constructor
  · rintro rfl
    obtain ⟨result, reads⟩ := exists_readsRegisters expression
    rw [reads.resolveRegisters]
    exact reads
  · exact ReadsRegisters.resolveRegisters

/-- An operand as the number of one or two codes, which it gives back. -/
structure Packs (o : Operand) (codes : List UInt8) : Prop where
  count : codes.length = 1 ∨ codes.length = 2
  shifted : o.value = packCodes codes
  bounds : 0 ≤ o.value ∧ o.value ≤ 255
  first : o.value / 16 = (codes.getD 0 0).toNat
  second : o.value % 16 = (codes.getD 1 0).toNat
  absolute : o.relocatable = false
  no_bytes : o.bytes = []

theorem packs_of_resolveRegisters {expression : String} {o : Operand}
    (read : resolveRegisters expression = .ok o) :
    ∃ codes, List.Forall₂ SpellsCode (Text.trimmedParts ',' expression.toList) codes ∧
      o.Packs codes := by
  cases resolveRegisters_eq_iff.1 read with
  | @registers codes spelled few =>
    have small := le_of_spelled spelled
    have filled : codes.length ≠ 0 := by
      rw [← spelled.length_eq, Text.trimmedParts, List.length_map, Ne, List.length_eq_zero_iff]
      exact List.splitOn_ne_nil ',' expression.toList
    have count : codes.length = 1 ∨ codes.length = 2 := by omega
    exact ⟨codes, spelled, {
      count := count
      shifted := (packCodes_eq small count).symm
      bounds := packedCodes_bounds small
      first := packedCodes_div small
      second := packedCodes_mod small
      absolute := rfl
      no_bytes := rfl }⟩

end Operand

end SicXe
