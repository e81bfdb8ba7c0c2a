import SicXe.Proofs.Assembly.Comparison
import SicXe.Proofs.Operand.Case

/-!
# Lines in capitals

A line in capitals has the columns of the line, in capitals, and the catalog finds the same instruction
for them. So two lines that differ in case only are read alike, if no apostrophe stands in them
(`reading_of_recased`).
-/
namespace SicXe

/-- The catalog does not tell columns apart that differ in case only. -/
theorem Catalog.lookup_upper (c : Catalog) (column : String) :
    c.lookup (Instruction.upper column) = c.lookup column := by
  have extension (text : List Char) : splitExtension (Text.upper text) =
      ((splitExtension text).1, Text.upper (splitExtension text).2) := by
    cases text with
    | nil => rfl
    | cons first rest =>
      by_cases plus : first = '+'
      · subst plus
        rfl
      · have plus' : first.toUpper ≠ '+' := fun same => plus ((Text.toUpper_eq_iff rfl first).1 same)
        simp [splitExtension, plus, plus']
  unfold lookup
  rw [Instruction.toList_upper, Text.trim_upper, extension]
  dsimp only
  rw [Text.isEmpty_upper, Instruction.upper_ofList, Instruction.upper_ofList, Text.upper_upper]

namespace Source

def Statement.upper (s : Statement) : Statement :=
  ⟨s.label.map Instruction.upper, s.instruction, s.operand.map Instruction.upper⟩

theorem statement?_upper (catalog : Catalog) (columns : List String) :
    statement? catalog (columns.map Instruction.upper) =
      (statement? catalog columns).map Statement.upper := by
  cases columns with
  | nil => rfl
  | cons first rest =>
    simp only [List.map_cons, statement?, Catalog.lookup_upper, List.head?_map]
    cases catalog.lookup first with
    | some i => rfl
    | none =>
      cases rest with
      | nil => rfl
      | cons second rest =>
        simp only [List.map_cons, Catalog.lookup_upper, List.head?_map, Option.map_map]
        rfl

theorem isQuote_toUpper (c : Char) : isQuote c.toUpper = isQuote c := by
  simp only [isQuote, Text.toUpper_eq_iff (c := Literal.quote) rfl]

theorem columnsOf_upper (text : String) :
    columnsOf (Instruction.upper text) = (columnsOf text).map Instruction.upper := by
  unfold columnsOf columns
  rw [Instruction.toList_upper, Text.quotedWords_upper isQuote_toUpper, List.map_map, List.map_map]
  exact List.map_congr_left fun word _ => (Instruction.upper_ofList word).symm

theorem isIdle_upper (text : List Char) : isIdle (Text.upper text) = isIdle text := by
  unfold isIdle
  rw [Text.trimStart_upper]
  cases Text.trimStart text with
  | nil => rfl
  | cons c rest => simp only [Text.upper_cons, Text.toUpper_eq_iff (c := '.') rfl]

/-! ### Lines that differ in case -/

theorem quote_not_mem_column {text column : String} (plain : Literal.quote ∉ text.toList)
    (h : column ∈ columnsOf text) : Literal.quote ∉ column.toList := by
  obtain ⟨word, member, rfl⟩ := List.mem_map.1 h
  rw [String.toList_ofList]
  exact fun quoted => plain ((Text.sublist_of_mem_quotedWords member).subset quoted)

/-- Whether a line is as it was, or has no apostrophe and may have other letters in capitals. -/
def Recased (text text' : String) : Prop :=
  text = text' ∨ (Literal.quote ∉ text.toList ∧ Instruction.upper text = Instruction.upper text')

instance (text text' : String) : Decidable (Recased text text') :=
  inferInstanceAs (Decidable (text = text' ∨
    (Literal.quote ∉ text.toList ∧ Instruction.upper text = Instruction.upper text')))

theorem quote_not_mem_of_upper {text text' : String} (plain : Literal.quote ∉ text.toList)
    (same : Instruction.upper text = Instruction.upper text') : Literal.quote ∉ text'.toList := by
  have capitals := congrArg String.toList same
  rw [Instruction.toList_upper, Instruction.toList_upper] at capitals
  intro quoted
  have member : Literal.quote.toUpper ∈ Text.upper text'.toList := List.mem_map_of_mem quoted
  rw [← capitals] at member
  exact Literal.quote_not_mem_upper plain member

/-- Operand columns that differ in case only. -/
theorem sameColumn_of_upper {column column' : String} (plain : Literal.quote ∉ column.toList)
    (same : Instruction.upper column = Instruction.upper column') (i : Instruction) :
    View.caseless.SameColumn i column column' where
  looks := same
  value symbols pool := by
    rw [← Assembly.evaluate_upper plain, same,
      Assembly.evaluate_upper (quote_not_mem_of_upper plain same)]

/-- Statements that differ in the case of their columns. -/
theorem sameStatement_of_upper {s s' : Statement}
    (plain : ∀ operand, s.operand = some operand → Literal.quote ∉ operand.toList)
    (same : s.upper = s'.upper) : View.caseless.SameStatement s s' := by
  obtain ⟨label, i, operand⟩ := s
  obtain ⟨label', i', operand'⟩ := s'
  simp only [Statement.upper, Statement.mk.injEq] at same
  obtain ⟨labels, rfl, operands⟩ := same
  refine ⟨rfl, ?_, ?_⟩
  · have normal (label : Option String) : label.map View.caseless.normalized =
        (label.map Instruction.upper).map Label.normalize := by
      cases label with
      | none => rfl
      | some text => exact congrArg some (Label.normalize_upper text).symm
    rw [normal, normal, labels]
  · cases operand with
    | none =>
      cases operand' with
      | none => exact .none
      | some column' => cases operands
    | some column =>
      cases operand' with
      | none => cases operands
      | some column' =>
        exact .some (sameColumn_of_upper (plain column rfl) (Option.some.inj operands) i)

theorem reading_of_recased {text text' : String} (recased : Recased text text') (catalog : Catalog)
    (line : Nat) :
    View.caseless.SameReading (read catalog line text) (read catalog line text') := by
  rcases recased with rfl | ⟨plain, same⟩
  · exact .refl _ _
  · have columns : (columnsOf text).map Instruction.upper =
        (columnsOf text').map Instruction.upper := by
      rw [← columnsOf_upper, same, columnsOf_upper]
    have statements : (statement? catalog (columnsOf text)).map Statement.upper =
        (statement? catalog (columnsOf text')).map Statement.upper := by
      rw [← statement?_upper, columns, statement?_upper]
    have idle : isIdle text.toList = isIdle text'.toList := by
      rw [← isIdle_upper, ← Instruction.toList_upper, same, Instruction.toList_upper, isIdle_upper]
    unfold read
    rw [← idle]
    split
    · exact .idle
    · dsimp only
      cases stated : statement? catalog (columnsOf text) with
      | some s =>
        cases stated' : statement? catalog (columnsOf text') with
        | none => simp [stated, stated'] at statements
        | some s' =>
          rw [stated, stated'] at statements
          refine .stated (sameStatement_of_upper (fun operand present => ?_)
            (Option.some.inj statements))
          exact quote_not_mem_column plain ((statement?_eq_some stated).2 operand present)
      | none =>
        cases stated' : statement? catalog (columnsOf text') with
        | some s' => simp [stated, stated'] at statements
        | none =>
          have heads := congrArg List.head? columns
          have seconds := congrArg (·[1]?) columns
          simp only [List.head?_map, List.getElem?_map] at heads seconds
          have shown (column : Option String) : Instruction.upper (column.getD "") =
              (column.map Instruction.upper).getD "" := by
            cases column <;> rfl
          refine .unknown ?_
          simp only [View.error, View.caseless, shown, heads, seconds, id]

end Source

end SicXe
