import SicXe.Proofs.Source.Kept
import SicXe.Proofs.Symbol.Label

/-!
# Lines by their columns

A line may be indented, its columns may be set apart by any blanks, and a remark may stand behind the last
one (`Spacing`). What the line says is in its columns alone (`Spacing.statementIn_line`), provided that each
of them is one word: it has no blanks outside quotations, and the last quotation ends (`IsColumn`).
-/
namespace SicXe

namespace Source

/-! ### Columns -/

/-- A text that is a column of each line in which it stands between blanks. -/
structure IsColumn (column : List Char) : Prop where
  filled : column ≠ []
  /-- It has no blanks but quoted ones. -/
  whole : Text.splitQuoted isQuote false column = (column, [])
  closed : Text.quotedAfter isQuote false column = false

/-- Neither a quote nor a blank. -/
def Bare (text : List Char) : Prop := ∀ c ∈ text, isQuote c = false ∧ Text.isBlank c = false

-- Given by name: a search could also find the decision over all characters, which does not evaluate.
instance (text : List Char) : Decidable (Bare text) :=
  List.decidableBAll (fun c => isQuote c = false ∧ Text.isBlank c = false) text

/-- Bare characters go on with a column. -/
theorem Bare.joining {text : List Char} (bare : Bare text) :
    ∀ c ∈ text, isQuote c = false ∧ (Text.isBlank c = true → false = true) := fun c member =>
  ⟨(bare c member).1, fun blank => (bare c member).2.symm.trans blank⟩

theorem Bare.closed {text : List Char} (bare : Bare text) :
    Text.quotedAfter isQuote false text = false :=
  Text.quotedAfter_of_no_quote (fun c member => (bare c member).1) false

theorem isColumn_of_bare {column : List Char} (filled : column ≠ []) (bare : Bare column) :
    IsColumn column where
  filled := filled
  whole := by
    have read := Text.splitQuoted_append_of_joining bare.joining []
    rw [List.append_nil] at read
    rw [read, Text.splitQuoted, List.append_nil]
  closed := bare.closed

/-- What stands between two quotes may have blanks. -/
theorem isColumn_of_quoted {front inner : List Char} (bare : Bare front)
    (plain : ∀ c ∈ inner, isQuote c = false) :
    IsColumn (front ++ Literal.quote :: (inner ++ [Literal.quote])) where
  filled := by simp
  whole := by
    have quotes : isQuote Literal.quote = true := rfl
    have visible : Text.isBlank Literal.quote = false := by decide
    have within : ∀ c ∈ inner, isQuote c = false ∧ (Text.isBlank c = true → true = true) :=
      fun c member => ⟨plain c member, fun _ => rfl⟩
    rw [Text.splitQuoted_append_of_joining bare.joining]
    simp only [Text.splitQuoted, quotes, visible, Bool.false_and, Bool.false_eq_true, if_false,
      Bool.bne_true, Bool.not_false, Text.splitQuoted_append_of_joining within]
  closed := by
    rw [Text.quotedAfter_append, bare.closed]
    have opened : Text.quotedAfter isQuote false (Literal.quote :: (inner ++ [Literal.quote])) =
        Text.quotedAfter isQuote true (inner ++ [Literal.quote]) := rfl
    rw [opened, Text.quotedAfter_append, Text.quotedAfter_of_no_quote plain]
    rfl

theorem IsColumn.columnsOf {column : List Char} (h : IsColumn column) :
    columnsOf (String.ofList column) = [String.ofList column] := by
  rw [Source.columnsOf, columns, String.toList_ofList, Text.quotedWords_of_whole h.whole,
    Text.consWord_of_ne_nil h.filled, List.map_singleton]

/-- The blanks between two columns. -/
structure IsGap (gap : List Char) : Prop where
  filled : gap ≠ []
  separates : ∀ c ∈ gap, Text.isBlank c = true

instance (gap : List Char) : Decidable (IsGap gap) :=
  decidable_of_iff (gap ≠ [] ∧ gap.all Text.isBlank = true)
    ⟨fun h => ⟨h.1, List.all_eq_true.1 h.2⟩, fun h => ⟨h.filled, List.all_eq_true.2 h.separates⟩⟩

theorem IsColumn.columnsOf_append {column gap : List Char} (h : IsColumn column) (set_apart : IsGap gap)
    (rest : List Char) : Source.columnsOf (String.ofList (column ++ (gap ++ rest))) =
      String.ofList column :: Source.columnsOf (String.ofList rest) := by
  obtain ⟨blank, blanks, rfl⟩ := List.exists_cons_of_ne_nil set_apart.filled
  obtain ⟨first, later⟩ := List.forall_mem_cons.1 set_apart.separates
  rw [List.cons_append, Source.columnsOf_append h.closed first, h.columnsOf,
    columnsOf_of_blanks later]
  rfl

/-! ### Lines -/

/-- What stands around the instruction and the operand of a line. -/
structure Spacing where
  indent : List Char
  label : Option String
  afterLabel : List Char
  afterInstruction : List Char
  remark : List Char

namespace Spacing

/-- The label of a line and the blanks behind it. -/
def start (w : Spacing) : List Char :=
  match w.label with
  | none => []
  | some label => label.toList ++ w.afterLabel

/-- A line with an instruction and an operand. -/
def line (w : Spacing) (instruction operand : List Char) : String :=
  String.ofList (w.indent ++ (w.start ++ (instruction ++ (w.afterInstruction ++ (operand ++ w.remark)))))

/-- The blanks are blanks, the label is a valid one that is no mnemonic, and a blank stands before the
remark if there is one. -/
structure Legible (catalog : Catalog) (w : Spacing) : Prop where
  indent : ∀ c ∈ w.indent, Text.isBlank c = true
  label : ∀ label, w.label = some label →
    Label.defect? label.toList = none ∧ catalog.lookup label = none
  afterLabel : IsGap w.afterLabel
  afterInstruction : IsGap w.afterInstruction
  remark : ∀ c, w.remark.head? = some c → Text.isBlank c = true

theorem bare_of_label {label : List Char} (valid : Label.defect? label = none) : Bare label := by
  intro c member
  have inside := ((Label.defect?_eq_none_iff label).1 valid).2.2 c member
  refine ⟨?_, Label.isBlank_of_isLabelChar inside⟩
  unfold isQuote
  rw [decide_eq_false_iff_not]
  rintro rfl
  cases inside

variable {catalog : Catalog} {w : Spacing}

theorem columnsOf_remark {operand remark : List Char} (column : IsColumn operand)
    (set_apart : ∀ c, remark.head? = some c → Text.isBlank c = true) :
    ∃ others, columnsOf (String.ofList (operand ++ remark)) = String.ofList operand :: others := by
  cases remark with
  | nil => exact ⟨[], by rw [List.append_nil, column.columnsOf]⟩
  | cons blank remark =>
    refine ⟨columnsOf (String.ofList remark), ?_⟩
    rw [Source.columnsOf_append column.closed (set_apart blank rfl), column.columnsOf]
    rfl

/-- A line is not idle if its first character behind the blanks is visible and no full stop. -/
theorem isIdle_of_visible {blanks rest : List Char} {first : Char}
    (indent : ∀ c ∈ blanks, Text.isBlank c = true) (visible : Text.isBlank first = false)
    (no_stop : first ≠ '.') : isIdle (blanks ++ first :: rest) = false := by
  unfold isIdle Text.trimStart
  rw [List.dropWhile_append_of_pos indent, List.dropWhile_cons_of_neg (by simp [visible])]
  simpa using no_stop

/-- The statement of a line, however it is spaced. The first character of an instruction column makes the
line a comment if it is a full stop and there is no label before it. -/
theorem statementIn_line (legible : w.Legible catalog) {instruction operand : List Char}
    {i : Instruction} (bare : Bare instruction) (no_stop : instruction.head? ≠ some '.')
    (known : catalog.lookup (String.ofList instruction) = some i) (column : IsColumn operand) :
    statementIn catalog (w.line instruction operand) =
      some ⟨w.label, i, some (String.ofList operand)⟩ := by
  have filled : instruction ≠ [] := by
    rintro rfl
    cases known
  have instruction_column := isColumn_of_bare filled bare
  obtain ⟨others, last⟩ := columnsOf_remark column legible.remark
  have tail : columnsOf (String.ofList (instruction ++ (w.afterInstruction ++ (operand ++ w.remark)))) =
      String.ofList instruction :: String.ofList operand :: others := by
    rw [instruction_column.columnsOf_append legible.afterInstruction, last]
  obtain ⟨first, following, parts⟩ := List.exists_cons_of_ne_nil filled
  unfold statementIn line start
  rw [String.toList_ofList, columnsOf_of_blanks legible.indent]
  cases labelled : w.label with
  | none =>
    have visible := (bare first (by simp [parts])).2
    have active (rest : List Char) : isIdle (w.indent ++ (instruction ++ rest)) = false := by
      rw [parts]
      exact isIdle_of_visible legible.indent visible fun stop => no_stop (by rw [parts, stop]; rfl)
    simp only [List.nil_append, active, Bool.false_eq_true, if_false, tail, statement?, known,
      List.head?_cons]
  | some label =>
    obtain ⟨valid, unknown⟩ := legible.label label labelled
    obtain ⟨_, letter, _⟩ := (Label.defect?_eq_none_iff _).1 valid
    have bare_label := bare_of_label valid
    have label_filled : label.toList ≠ [] := by
      intro nothing
      rw [nothing] at letter
      cases letter
    obtain ⟨start, more, spelt⟩ := List.exists_cons_of_ne_nil label_filled
    have active (rest : List Char) : isIdle (w.indent ++ (label.toList ++ w.afterLabel ++ rest)) = false := by
      rw [spelt] at letter ⊢
      refine isIdle_of_visible legible.indent (bare_label start (by simp [spelt])).2 ?_
      rintro rfl
      cases letter
    have label_column := isColumn_of_bare label_filled bare_label
    have columns := label_column.columnsOf_append legible.afterLabel
      (instruction ++ (w.afterInstruction ++ (operand ++ w.remark)))
    rw [tail, ← List.append_assoc, String.ofList_toList] at columns
    simp only [active, Bool.false_eq_true, if_false, columns, statement?, unknown, known,
      Option.map_some, List.head?_cons]

end Spacing

end Source

end SicXe
