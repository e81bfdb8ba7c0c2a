import SicXe.Proofs.Source.Columns

/-!
# What is kept of a line

A statement is read from the first columns of its line (`read_eq_kept`). Blanks before them, more blanks
between them, and what is written behind them do not change them (`kept_of_indent`, `kept_of_comment`),
however the quotes of a comment join its words.
-/
namespace SicXe

namespace Source

/-- How many columns a statement can take. -/
def width (catalog : Catalog) (columns : List String) : Nat :=
  if columns.head?.any fun first => (catalog.lookup first).isSome then 2 else 3

/-- The columns of a line that its statement is read from. An idle line has none. -/
def kept (catalog : Catalog) (text : String) : Option (List String) :=
  if isIdle text.toList then none
  else some ((columnsOf text).take (width catalog (columnsOf text)))

theorem statement?_take_width (catalog : Catalog) (columns : List String) :
    statement? catalog (columns.take (width catalog columns)) = statement? catalog columns := by
  cases columns with
  | nil => simp [width]
  | cons first rest =>
    unfold width
    cases known : catalog.lookup first with
    | some i => cases rest <;> simp [known, statement?]
    | none =>
      cases rest with
      | nil => simp [known]
      | cons second rest => cases rest <;> simp [known, statement?]

/-- A line is read from what is kept of it. -/
theorem read_eq_kept (catalog : Catalog) (line : Nat) (text : String) :
    read catalog line text =
      match kept catalog text with
      | none => .ok none
      | some columns =>
        match statement? catalog columns with
        | some s => .ok (some s)
        | none => .error (.unknownInstruction line (columns.head?.getD "") columns[1]?) := by
  unfold read kept
  split
  · rfl
  · dsimp only
    -- An error shows the first two columns, and these are always kept.
    have wide : 2 ≤ width catalog (columnsOf text) := by
      unfold width
      split <;> omega
    cases stated : statement? catalog (columnsOf text) with
    | some s => simp only [statement?_take_width, stated]
    | none =>
      simp only [statement?_take_width, stated]
      rw [List.head?_take, List.getElem?_take, if_neg (by omega), if_pos (by omega)]

/-- A blank in front of a line is not kept. -/
theorem kept_of_indent (catalog : Catalog) {blank : Char} (separates : Text.isBlank blank = true)
    (text : List Char) :
    kept catalog (String.ofList (blank :: text)) = kept catalog (String.ofList text) := by
  have idle : isIdle (blank :: text) = isIdle text := by
    simp only [isIdle, Text.trimStart, List.dropWhile_cons, separates, if_true]
  have columns : columnsOf (String.ofList (blank :: text)) = columnsOf (String.ofList text) :=
    @columnsOf_append [] rfl blank separates text
  unfold kept
  rw [columns, String.toList_ofList, String.toList_ofList, idle]

theorem isIdle_append {text : List Char} (h : isIdle text = false) (rest : List Char) :
    isIdle (text ++ rest) = false := by
  unfold isIdle Text.trimStart at h ⊢
  rw [List.dropWhile_append]
  cases trimmed : text.dropWhile Text.isBlank with
  | nil => rw [trimmed] at h; cases h
  | cons c text =>
    rw [trimmed] at h
    exact h

/-- Nothing is kept of what follows the last column of a statement and a blank. -/
theorem kept_of_comment {catalog : Catalog} {text : List Char}
    (closed : Text.quotedAfter isQuote false text = false)
    (full : width catalog (columnsOf (String.ofList text)) ≤ (columnsOf (String.ofList text)).length)
    (active : isIdle text = false) {blank : Char} (separates : Text.isBlank blank = true)
    (comment : List Char) :
    kept catalog (String.ofList (text ++ blank :: comment)) = kept catalog (String.ofList text) := by
  have columns := columnsOf_append closed separates comment
  have same_width : width catalog (columnsOf (String.ofList (text ++ blank :: comment))) =
      width catalog (columnsOf (String.ofList text)) := by
    rw [columns]
    cases first : columnsOf (String.ofList text) with
    | nil => rw [first] at full; cases full
    | cons column rest => rfl
  unfold kept
  rw [same_width, columns, List.take_append_of_le_length full, String.toList_ofList,
    String.toList_ofList, active, isIdle_append active]

end Source

end SicXe
