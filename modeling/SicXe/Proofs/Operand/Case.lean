import SicXe.Assembly.Attempt
import SicXe.Proofs.Operand.Pooled
import SicXe.Proofs.Text.Case
import SicXe.Proofs.View

/-!
# Operands in capitals

An operand column in capitals has the value of the column itself, and where there is none the error is
the same up to case (`evaluate_upper`). The characters of a constant are the exception: they stand
between apostrophes, so a column without any has no such constant (`constant?_upper`).
-/
namespace SicXe

open Text (upper upper_cons toUpper_eq_iff)

@[simp] theorem Instruction.toList_upper (text : String) :
    (Instruction.upper text).toList = Text.upper text.toList := String.toList_ofList

@[simp] theorem Instruction.upper_ofList (text : List Char) :
    Instruction.upper (String.ofList text) = String.ofList (Text.upper text) := by
  rw [Instruction.upper, String.toList_ofList]
  rfl

namespace Text

@[simp] theorem upper_upper (text : List Char) : upper (upper text) = upper text := by
  unfold upper
  rw [List.map_map]
  exact List.map_congr_left fun c _ => Label.toUpper_toUpper c

theorem head?_upper_eq_some_iff {c : Char} (other : c.isAlpha = false) (text : List Char) :
    (upper text).head? = some c ↔ text.head? = some c := by
  cases text with
  | nil => simp [upper]
  | cons first rest => simp [toUpper_eq_iff other]

theorem getLast?_upper_eq_some_iff {c : Char} (other : c.isAlpha = false) (text : List Char) :
    (upper text).getLast? = some c ↔ text.getLast? = some c := by
  rw [← List.head?_reverse, ← upper_reverse, head?_upper_eq_some_iff other, List.head?_reverse]

end Text

/-! ### Labels -/

namespace Label

/-- The normal form of a label in capitals is that of the label. -/
theorem normalize_upper (label : String) :
    normalize (Instruction.upper label) = View.caseless.normalized label := by
  have same : defect? (upper (Text.trim label.toList)) = defect? (Text.trim label.toList) :=
    defect?_upper _
  unfold View.normalized
  dsimp only [normalize]
  rw [Instruction.toList_upper, Text.trim_upper, same]
  cases defect? (Text.trim label.toList) with
  | none => exact congrArg (fun text => Except.ok (String.ofList text)) (Text.upper_upper _)
  | some defect =>
    simp only [Except.mapError, View.labelError, View.caseless, Instruction.upper_ofList]

end Label

theorem SymbolTable.lookup_upper (symbols : SymbolTable) (label : String) :
    symbols.lookup (Instruction.upper label) = symbols.lookup label := by
  unfold lookup
  rw [Label.normalize_upper, View.normalized]
  cases Label.normalize label <;> rfl

namespace Operand

/-! ### Modes -/

def Joint.upper (j : Joint) : Joint := ⟨Text.upper j.left, j.sign, Text.upper j.right⟩

theorem isAddressingMark_toUpper (c : Char) : isAddressingMark c.toUpper = isAddressingMark c := by
  simp only [isAddressingMark, toUpper_eq_iff (c := '#') rfl, toUpper_eq_iff (c := '@') rfl]

theorem Sign.ofChar?_eq_none {c : Char} (plus : c ≠ '+') (minus : c ≠ '-') : ofChar? c = none := by
  unfold ofChar?
  split
  · exact absurd rfl plus
  · exact absurd rfl minus
  · rfl

theorem Sign.ofChar?_toUpper (c : Char) : ofChar? c.toUpper = ofChar? c := by
  by_cases plus : c = '+'
  · subst plus
    rfl
  · by_cases minus : c = '-'
    · subst minus
      rfl
    · rw [ofChar?_eq_none plus minus, ofChar?_eq_none]
      · exact fun same => plus ((toUpper_eq_iff rfl c).1 same)
      · exact fun same => minus ((toUpper_eq_iff rfl c).1 same)

theorem jointsFrom_upper (quoted lead : Bool) (before text : List Char) :
    jointsFrom quoted lead (upper before) (upper text) =
      (jointsFrom quoted lead before text).map Joint.upper := by
  induction text generalizing quoted lead before with
  | nil => rfl
  | cons c rest ih =>
    have quote : (c.toUpper == Literal.quote) = (c == Literal.quote) := by
      rw [Bool.eq_iff_iff, beq_iff_eq, beq_iff_eq]
      exact toUpper_eq_iff rfl c
    simp only [upper_cons, jointsFrom, isAddressingMark_toUpper, quote, Sign.ofChar?_toUpper]
    rw [← upper_cons c before, ih, ih]
    split
    · rfl
    · cases Sign.ofChar? c with
      | none => rfl
      | some sign =>
        dsimp only
        split
        · rfl
        · simp only [List.map_cons, Joint.upper, Text.upper_reverse]

theorem joints_upper (text : List Char) : joints (upper text) = (joints text).map Joint.upper :=
  jointsFrom_upper false true [] text

theorem indexBase?_upper (text : List Char) :
    indexBase? (upper text) = (indexBase? text).map upper := by
  unfold indexBase?
  rw [← Text.upper_reverse]
  cases text.reverse with
  | nil => rfl
  | cons x rest =>
    cases rest with
    | nil => rfl
    | cons comma base =>
      by_cases suffix : comma = ','
      · subst suffix
        change (if x.toUpper.toUpper = 'X' then some (upper base).reverse else none) =
          (if x.toUpper = 'X' then some base.reverse else none).map upper
        rw [Label.toUpper_toUpper, ← Text.upper_reverse]
        split <;> rfl
      · have suffix' : comma.toUpper ≠ ',' := fun same => suffix ((toUpper_eq_iff rfl comma).1 same)
        simp [suffix, suffix']

/-- The form of a constant that starts with no equals sign. -/
theorem isConstantForm_of_cons {text rest : List Char} {marker : Char}
    (trimmed : Text.trim text = marker :: rest) (other : marker ≠ '=') :
    Literal.isConstantForm text =
      (decide (marker.toUpper = 'C' ∨ marker.toUpper = 'X') &&
        decide (rest.head? = some Literal.quote ∧ rest.tail.getLast? = some Literal.quote)) := by
  unfold Literal.isConstantForm
  rw [trimmed]
  cases rest <;> simp [other, Bool.and_assoc]

theorem isConstantForm_upper (text : List Char) :
    Literal.isConstantForm (upper text) = Literal.isConstantForm text := by
  cases trimmed : Text.trim text with
  | nil =>
    unfold Literal.isConstantForm
    rw [Text.trim_upper, trimmed]
    rfl
  | cons marker rest =>
    have trimmed' : Text.trim (upper text) = marker.toUpper :: upper rest := by
      rw [Text.trim_upper, trimmed, upper_cons]
    by_cases equals : marker = '='
    · subst equals
      rw [Literal.isConstantForm_of_equals (by rw [trimmed']; rfl),
        Literal.isConstantForm_of_equals (by rw [trimmed]; rfl)]
    · have equals' : marker.toUpper ≠ '=' := fun same => equals ((toUpper_eq_iff rfl marker).1 same)
      have last : (upper rest).tail.getLast? = some Literal.quote ↔
          rest.tail.getLast? = some Literal.quote := by
        rw [upper, ← List.map_tail]
        exact Text.getLast?_upper_eq_some_iff rfl rest.tail
      -- The marker is compared as a capital, so it may have been written in either case.
      rw [isConstantForm_of_cons trimmed' equals', isConstantForm_of_cons trimmed equals]
      simp only [Label.toUpper_toUpper, Text.head?_upper_eq_some_iff (c := Literal.quote) rfl, last]

theorem announcedKind_upper (text : List Char) : announcedKind (upper text) = announcedKind text := by
  have equals (c : Char) : decide (c.toUpper = '=') = decide (c = '=') := by
    simp only [toUpper_eq_iff (c := '=') rfl]
  have marker : ((upper text).dropWhile (· = '=')).head?.map Char.toUpper =
      (text.dropWhile (· = '=')).head?.map Char.toUpper := by
    rw [Text.dropWhile_upper equals]
    cases text.dropWhile (· = '=') with
    | nil => rfl
    | cons c rest => exact congrArg some (Label.toUpper_toUpper c)
  simp only [announcedKind, marker, Text.head?_upper_eq_some_iff (c := '=') rfl]

theorem classify_upper (expression : List Char) : classify (upper expression) = classify expression := by
  simp only [classify, Text.trim_upper, indexBase?_upper, Option.isSome_map, joints_upper,
    List.isEmpty_map, Text.head?_upper_eq_some_iff (c := '#') rfl,
    Text.head?_upper_eq_some_iff (c := '@') rfl, isConstantForm_upper, announcedKind_upper,
    Text.isInteger, Text.integer?_upper]
  rfl

/-! ### Quantities -/

variable (symbols : SymbolTable)

theorem symbol_upper (text : List Char) :
    symbol symbols (upper text) = (symbol symbols text).mapError View.caseless.error := by
  unfold symbol
  dsimp only
  rw [Text.trim_upper, ← Instruction.upper_ofList, SymbolTable.lookup_upper]
  cases symbols.lookup (String.ofList (Text.trim text)) <;> rfl

theorem term_upper (raw : List Char) :
    term symbols (upper raw) = (term symbols raw).mapError View.caseless.error := by
  unfold term
  dsimp only
  rw [Text.trim_upper, Text.dropWhile_upper isAddressingMark_toUpper, Text.isEmpty_upper,
    Text.integer?_upper, symbol_upper, ← Instruction.upper_ofList, ← Instruction.upper_ofList]
  split
  · rfl
  · split
    · split <;> rfl
    · rfl

theorem arithmetic_upper (text : List Char) :
    arithmetic symbols (upper text) = (arithmetic symbols text).mapError View.caseless.error := by
  unfold arithmetic
  rw [joints_upper, ← Instruction.upper_ofList]
  match joints text with
  | [] => rfl
  | [joint] =>
    simp only [List.map_cons, List.map_nil, Joint.upper, term_upper]
    cases term symbols joint.left with
    | error e => rfl
    | ok left =>
      cases term symbols joint.right with
      | error e => rfl
      | ok right =>
        simp only [Except.mapError]
        split <;> rfl
  | _ :: _ :: _ => rfl

theorem quantity_upper (text : List Char) :
    quantity symbols (upper text) = (quantity symbols text).mapError View.caseless.error := by
  unfold quantity
  rw [joints_upper, List.isEmpty_map, term_upper, arithmetic_upper]
  split <;> rfl

theorem resolveQuantity_upper (mode : Mode) (text : List Char) :
    resolveQuantity symbols mode (upper text) =
      (resolveQuantity symbols mode text).mapError View.caseless.error := by
  have rest : (upper text).drop 1 = upper (text.drop 1) := List.map_drop.symm
  unfold resolveQuantity
  cases mode with
  | immediate =>
    dsimp only
    rw [rest, quantity_upper]
  | indirect =>
    dsimp only
    rw [rest, symbol_upper]
  | indexed =>
    have base : (indexBase? (upper text)).getD [] = upper ((indexBase? text).getD []) := by
      rw [indexBase?_upper]
      cases indexBase? text <;> rfl
    dsimp only
    rw [base, Text.trim_upper, Text.isEmpty_upper, quantity_upper, ← Instruction.upper_ofList]
    split <;> rfl
  | arithmetic => exact arithmetic_upper symbols text
  | simple => exact symbol_upper symbols text
  | literal kind => exact symbol_upper symbols text

end Operand

/-! ### Constants -/

namespace Literal

variable {text : List Char}

theorem quotedConstant?_of_no_quote (plain : quote ∉ text) (pooled : Bool) :
    quotedConstant? pooled text = none := by
  cases text with
  | nil => rfl
  | cons marker rest =>
    have unquoted : quoted? rest = none := by
      cases rest with
      | nil => rfl
      | cons first rest =>
        have other : first ≠ quote := fun same => plain (by simp [same])
        simp only [quoted?, other, false_and, if_false]
    unfold quotedConstant?
    dsimp only
    rw [unquoted]
    split <;> first | rfl | contradiction

theorem quote_not_mem_upper (plain : quote ∉ text) : quote ∉ upper text := by
  intro member
  obtain ⟨c, original, same⟩ := List.mem_map.1 member
  rw [toUpper_eq_iff rfl] at same
  exact plain (same ▸ original)

theorem constant?_of_equals (plain : quote ∉ text) (equals : text.head? = some '=') :
    constant? text = none := by
  obtain ⟨body, rfl⟩ := List.head?_eq_some_iff.1 equals
  exact quotedConstant?_of_no_quote (fun member => plain (List.mem_cons_of_mem _ member)) true

/-- A constant without apostrophes is a decimal integer. -/
theorem constant?_of_no_quote (plain : quote ∉ text) (other : text.head? ≠ some '=') :
    constant? text = (decimal? text).map fun value => (.decimal, decimalBytes value) := by
  unfold constant?
  split
  · exact absurd rfl other
  · rw [quotedConstant?_of_no_quote plain]
    cases decimal? text <;> rfl

@[simp] theorem decimal?_upper (text : List Char) : decimal? (upper text) = decimal? text := by
  rw [decimal?, Text.integer?_upper, decimal?]

theorem constant?_upper (plain : quote ∉ text) : constant? (upper text) = constant? text := by
  have starts := Text.head?_upper_eq_some_iff (c := '=') rfl text
  by_cases equals : text.head? = some '='
  · rw [constant?_of_equals plain equals,
      constant?_of_equals (quote_not_mem_upper plain) (starts.2 equals)]
  · rw [constant?_of_no_quote plain equals, constant?_of_no_quote (quote_not_mem_upper plain)
      (fun again => equals (starts.1 again)), decimal?_upper]

/-- The number that a constant stands for does not depend on the case in which it is written. -/
theorem value_upper (l : Literal) :
    value { l with expression := Instruction.upper l.expression } = value l := by
  unfold value
  simp only [Instruction.toList_upper, decimal?_upper]

end Literal

namespace Operand

variable {text : List Char}

theorem quote_not_mem_trim (plain : Literal.quote ∉ text) : Literal.quote ∉ Text.trim text :=
  fun member => plain ((Text.trim_infix text).subset member)

theorem resolveConstant_upper (plain : Literal.quote ∉ text) (pool : LiteralPool) :
    (resolveConstant (upper text)).map (·, pool) =
      View.caseless.value ((resolveConstant text).map (·, pool)) := by
  unfold resolveConstant
  dsimp only [Literal.parse]
  rw [String.toList_ofList, String.toList_ofList, Text.trim_upper,
    Literal.constant?_upper (quote_not_mem_trim plain)]
  cases Literal.constant? (Text.trim text) with
  | none =>
    simp only [Except.map, View.value, View.error, View.caseless, Instruction.upper_ofList]
  | some constant =>
    obtain ⟨kind, bytes⟩ := constant
    have same := Literal.value_upper ⟨String.ofList (Text.trim text), kind, bytes, none⟩
    simp only [Instruction.upper_ofList] at same
    simp only [Except.map, View.value, View.operand, View.caseless, Instruction.upper_ofList, same]

/-- What starts with an equals sign and has no apostrophe is no literal. -/
theorem resolvePooled_of_no_quote (plain : Literal.quote ∉ text)
    (equals : (Text.trim text).head? = some '=') (pool : LiteralPool) (kind : Literal.Kind) :
    resolvePooled pool kind text = .error (.invalidLiteral ⟨String.ofList (Text.trim text)⟩) := by
  unfold resolvePooled LiteralPool.register
  dsimp only [Literal.parse]
  rw [String.toList_ofList, Literal.constant?_of_equals (quote_not_mem_trim plain) equals]

theorem resolvePooled_upper (plain : Literal.quote ∉ text)
    (equals : (Text.trim text).head? = some '=') (pool : LiteralPool) (kind : Literal.Kind) :
    resolvePooled pool kind (upper text) = View.caseless.value (resolvePooled pool kind text) := by
  have equals' : (Text.trim (upper text)).head? = some '=' := by
    rw [Text.trim_upper, Text.head?_upper_eq_some_iff rfl]
    exact equals
  rw [resolvePooled_of_no_quote plain equals,
    resolvePooled_of_no_quote (Literal.quote_not_mem_upper plain) equals', Text.trim_upper,
    ← Instruction.upper_ofList]
  rfl

theorem ofQuantity_upper (symbols : SymbolTable) (mode : Mode) (text : List Char)
    (pool : LiteralPool) :
    (resolveQuantity symbols mode (upper text)).map (fun q => (ofQuantity (upper text) mode q, pool)) =
      View.caseless.value
        ((resolveQuantity symbols mode text).map fun q => (ofQuantity text mode q, pool)) := by
  rw [resolveQuantity_upper]
  cases resolveQuantity symbols mode text with
  | error e => rfl
  | ok q =>
    simp only [Except.mapError, Except.map, View.value, View.operand, ofQuantity, View.caseless,
      Instruction.upper_ofList]

/-- An operand without apostrophes does not depend on its case. -/
theorem resolve_upper {expression : String} (plain : Literal.quote ∉ expression.toList)
    (symbols : SymbolTable) (pool : LiteralPool) :
    resolve symbols pool (Instruction.upper expression) =
      View.caseless.value (resolve symbols pool expression) := by
  have trimmed := quote_not_mem_trim plain
  unfold resolve
  dsimp only
  rw [Instruction.toList_upper, Text.trim_upper, classify_upper]
  cases form : classify (Text.trim expression.toList) with
  | literal kind =>
    have pooled := isPooled_iff_of_mode form
    rw [← Text.trim_trim] at pooled
    -- A text of the pool starts with an equals sign, and without apostrophes it cannot be read.
    cases kind with
    | pooledNumber => exact resolvePooled_upper trimmed (pooled.1 rfl) pool _
    | pooledString => exact resolvePooled_upper trimmed (pooled.1 rfl) pool _
    | _ => exact resolveConstant_upper trimmed pool
  | _ => exact ofQuantity_upper symbols _ _ pool

/-! ### Lists -/

theorem registerCode_upper (part : List Char) :
    registerCode (upper part) = (registerCode part).mapError View.caseless.error := by
  have name (text : List Char) :
      Register.ofName? (String.ofList (upper text)) = Register.ofName? (String.ofList text) := by
    unfold Register.ofName?
    rw [String.toList_ofList, String.toList_ofList]
    exact congrArg (fun capitals => Register.all.find? fun r => r.name.toList = capitals)
      (Text.upper_upper text)
  unfold registerCode
  dsimp only
  rw [Text.trim_upper, name, Text.byte?_upper, ← Instruction.upper_ofList]
  cases Register.ofName? (String.ofList (Text.trim part)) with
  | some r => rfl
  | none =>
    cases Text.byte? 10 (Text.trim part) with
    | none => rfl
    | some count =>
      dsimp only
      split <;> rfl

theorem mapM_registerCode_upper (parts : List (List Char)) :
    (parts.map upper).mapM registerCode =
      (parts.mapM registerCode).mapError View.caseless.error := by
  induction parts with
  | nil => rfl
  | cons part rest ih =>
    rw [List.map_cons, List.mapM_cons, List.mapM_cons, registerCode_upper, ih]
    cases registerCode part with
    | error e => rfl
    | ok code => cases rest.mapM registerCode <;> rfl

theorem resolveRegisters_upper (expression : String) (pool : LiteralPool) :
    (resolveRegisters (Instruction.upper expression)).map (·, pool) =
      View.caseless.value ((resolveRegisters expression).map (·, pool)) := by
  unfold resolveRegisters
  dsimp only
  rw [Instruction.toList_upper, Text.trim_upper, Text.splitAt_upper rfl, ← Instruction.upper_ofList,
    List.isEmpty_map, List.length_map, mapM_registerCode_upper]
  split
  · rfl
  · cases (Text.splitAt ',' (Text.trim expression.toList)).mapM registerCode <;> rfl

theorem checkLabels_upper (parts : List (List Char)) :
    checkLabels (parts.map upper) = (checkLabels parts).mapError View.caseless.labelError := by
  induction parts with
  | nil => rfl
  | cons part rest ih =>
    simp only [List.map_cons, checkLabels, ← Instruction.upper_ofList, Label.normalize_upper,
      View.normalized, ih]
    cases Label.normalize (String.ofList part) <;> rfl

theorem resolveNames_upper (expression : String) (pool : LiteralPool) :
    (resolveNames (Instruction.upper expression)).map (·, pool) =
      View.caseless.value ((resolveNames expression).map (·, pool)) := by
  unfold resolveNames
  dsimp only
  rw [Instruction.toList_upper, Text.trim_upper, Text.splitAt_upper rfl, checkLabels_upper,
    ← Instruction.upper_ofList]
  cases checkLabels (Text.splitAt ',' (Text.trim expression.toList)) <;> rfl

end Operand

/-- An operand column without apostrophes has the same value in capitals, or the same error. -/
theorem Assembly.evaluate_upper {expression : String} (plain : Literal.quote ∉ expression.toList)
    (i : Instruction) (symbols : SymbolTable) (pool : LiteralPool) :
    evaluate i symbols pool (Instruction.upper expression) =
      View.caseless.value (evaluate i symbols pool expression) := by
  cases i with
  | machine mnemonic opcode format =>
    cases format with
    | two => exact Operand.resolveRegisters_upper expression pool
    | _ => exact Operand.resolve_upper plain symbols pool
  | directive d =>
    cases d with
    | extdef => exact Operand.resolveNames_upper expression pool
    | extref => exact Operand.resolveNames_upper expression pool
    | _ => exact Operand.resolve_upper plain symbols pool

end SicXe
