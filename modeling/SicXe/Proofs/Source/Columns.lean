import SicXe.Proofs.Source.Statement
import SicXe.Proofs.Text.Division

/-!
# Columns

The columns of a line are its words with the apostrophe for a quote. A line is cut into columns at all blanks
behind an even number of apostrophes and nowhere else (`columnsOf_law`), and a line that is not idle has a
first column (`exists_column`). A column starts with no blank (`flush_of_mem_columnsOf`).
-/
namespace SicXe

namespace Source

theorem isBlank_of_isQuote (c : Char) (h : isQuote c = true) : Text.isBlank c = false := by
  unfold isQuote at h
  rw [of_decide_eq_true h]
  decide

theorem flush_of_mem_columnsOf {text column : String} (h : column ∈ columnsOf text) :
    Text.Flush column.toList := by
  obtain ⟨word, member, rfl⟩ := List.mem_map.1 h
  rw [String.toList_ofList]
  exact Text.flush_of_mem_quotedWords isBlank_of_isQuote member

/-- The operand of a statement starts with no blank. -/
theorem flush_operand {catalog : Catalog} {text operand : String} {s : Statement}
    (h : statementIn catalog text = some s) (present : s.operand = some operand) :
    Text.Flush operand.toList := by
  unfold statementIn at h
  split at h
  · cases h
  · obtain ⟨_, column⟩ := statement?_eq_some h
    exact flush_of_mem_columnsOf (column operand present)

/-! ### Columns behind columns -/

theorem columnsOf_append {text : List Char} (closed : Text.quotedAfter isQuote false text = false)
    {blank : Char} (separates : Text.isBlank blank = true) (rest : List Char) :
    columnsOf (String.ofList (text ++ blank :: rest)) =
      columnsOf (String.ofList text) ++ columnsOf (String.ofList rest) := by
  simp only [columnsOf, columns, String.toList_ofList,
    Text.quotedWords_append isBlank_of_isQuote closed separates, List.map_append]

theorem columnsOf_of_blanks {blanks : List Char} (separate : ∀ c ∈ blanks, Text.isBlank c = true)
    (rest : List Char) :
    columnsOf (String.ofList (blanks ++ rest)) = columnsOf (String.ofList rest) := by
  induction blanks with
  | nil => rfl
  | cons blank blanks ih =>
    obtain ⟨first, later⟩ := List.forall_mem_cons.1 separate
    exact (@columnsOf_append [] rfl blank first (blanks ++ rest)).trans (ih later)

/-- A line may be trimmed at its start before it is cut into columns. -/
theorem columnsOf_trimStart (text : String) :
    columnsOf (String.ofList (Text.trimStart text.toList)) = columnsOf text := by
  have blanks : ∀ c ∈ text.toList.takeWhile Text.isBlank, Text.isBlank c = true := fun c member =>
    List.mem_takeWhile_imp member
  have same := columnsOf_of_blanks blanks (Text.trimStart text.toList)
  rw [Text.trimStart, List.takeWhile_append_dropWhile, String.ofList_toList] at same
  exact same.symm

/-! ### The columns of a line -/

theorem map_toList_columnsOf (text : String) :
    (columnsOf text).map String.toList = columns text.toList := by
  rw [columnsOf, List.map_map]
  have same (word : List Char) : (String.toList ∘ String.ofList) word = id word :=
    String.toList_ofList
  rw [List.map_congr_left fun word _ => same word, List.map_id]

theorem columnsOf_eq_iff {text : String} {parts : List String} :
    columnsOf text = parts ↔ Text.Division isQuote text.toList (parts.map String.toList) := by
  have injective : Function.Injective (List.map String.toList) :=
    List.map_injective_iff.2 fun _ _ => String.toList_injective
  rw [← injective.eq_iff, map_toList_columnsOf]
  exact Text.quotedWords_eq_iff isBlank_of_isQuote

theorem columnsOf_intercalate (text : String) :
    columnsOf (" ".intercalate (columnsOf text)) = columnsOf text := by
  have divided := Text.divided_quotedWords isBlank_of_isQuote text.toList
  have space : Text.isBlank ' ' = true := by decide
  have again := Text.quotedWords_intercalate isBlank_of_isQuote space
    (Text.ne_nil_of_mem_quotedWords isQuote text.toList) divided.whole divided.closed
  have line : (" ".intercalate (columnsOf text)).toList =
      [' '].intercalate (Text.quotedWords isQuote text.toList) := by
    rw [String.toList_intercalate, map_toList_columnsOf]
    rfl
  rw [columnsOf, columns, line, again]
  rfl

theorem columnsOf_eq_nil_iff (text : String) :
    columnsOf text = [] ↔ ∀ c ∈ text.toList, Text.isBlank c = true := by
  rw [columnsOf, List.map_eq_nil_iff]
  exact (Text.divided_quotedWords isBlank_of_isQuote text.toList).eq_nil_iff isBlank_of_isQuote

/-- A line that is not idle has a first column. -/
theorem exists_column {text : String} (active : isIdle text.toList = false) :
    ∃ first others, columnsOf text = first :: others := by
  refine List.exists_cons_of_ne_nil fun none => ?_
  have blank := (columnsOf_eq_nil_iff text).1 none
  rw [isIdle, Text.trimStart, List.dropWhile_eq_nil_iff.2 blank] at active
  cases active

/-- The columns of a line are its only division. They are read again from a line in which single spaces stand
between them, and a line has none only if it is blank. Blanks at the start do not count, so a line that is not
idle has a first column, which is shown if its instruction is not known. -/
theorem columnsOf_law (text : String) :
    (∀ parts, columnsOf text = parts ↔
      Text.Division isQuote text.toList (parts.map String.toList)) ∧
    columnsOf (" ".intercalate (columnsOf text)) = columnsOf text ∧
    (columnsOf text ≠ [] ↔ ∃ c ∈ text.toList, Text.isBlank c = false) ∧
    columnsOf (String.ofList (Text.trimStart text.toList)) = columnsOf text ∧
    (isIdle text.toList = false → ∃ first others, columnsOf text = first :: others ∧
      ∀ catalog line error, read catalog line text = .error error →
        error = .unknownInstruction line first others.head?) := by
  refine ⟨fun parts => columnsOf_eq_iff, columnsOf_intercalate text, ?_, columnsOf_trimStart text, ?_⟩
  · rw [ne_eq, columnsOf_eq_nil_iff]
    simp
  · intro active
    obtain ⟨first, others, parts⟩ := exists_column active
    refine ⟨first, others, parts, fun catalog line error failed => ?_⟩
    simp only [read, active, Bool.false_eq_true, if_false, parts] at failed
    cases stated : statement? catalog (first :: others) with
    | some s =>
      rw [stated] at failed
      cases failed
    | none =>
      rw [stated] at failed
      cases failed
      rw [List.head?_cons, Option.getD_some, List.getElem?_cons_succ, List.head?_eq_getElem?]

/-- A quotation that does not end takes in the blanks behind it. -/
example : columnsOf " MSG\tBYTE  C'A B' C'C  D " = ["MSG", "BYTE", "C'A B'", "C'C  D "] := by decide

end Source

end SicXe
