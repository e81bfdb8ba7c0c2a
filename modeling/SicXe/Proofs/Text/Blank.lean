import Mathlib.Data.List.DropRight
import SicXe.Text.Blank

/-!
# Trimming

A trimmed text does not start with a blank and is not changed by trimming it again (`trim_trim`). The
first character of a trimmed text is that of the text, if no blank stood before it (`head?_of_trim`). What
is taken off are blanks (`exists_blanks_trim`), and blanks at either end are taken off (`trim_blanks_append`,
`trim_append_blanks`).
-/
namespace SicXe.Text

/-- Whether a text starts with no blank. The empty one does not either. -/
def Flush (text : List Char) : Prop := ∀ c, text.head? = some c → isBlank c = false

theorem flush_nil : Flush [] := fun _ first => nomatch first

theorem flush_cons {c : Char} {rest : List Char} : Flush (c :: rest) ↔ isBlank c = false := by
  simp [Flush]

theorem flush_trimStart (text : List Char) : Flush (trimStart text) := by
  intro c first
  have not_dropped := List.head?_dropWhile_not isBlank text
  unfold trimStart at first
  rw [first] at not_dropped
  exact not_dropped

/-- Trimming at the end leaves the first character, unless it leaves none. -/
theorem head?_of_trimEnd {text : List Char} {c : Char} (h : (trimEnd text).head? = some c) :
    text.head? = some c := by
  have start : trimEnd text <+: text := List.rdropWhile_prefix isBlank text
  obtain ⟨rest, parts⟩ := start
  rw [← parts, List.head?_append, h]
  rfl

theorem flush_trim (text : List Char) : Flush (trim text) := fun c first =>
  flush_trimStart text c (head?_of_trimEnd first)

theorem trimStart_of_flush {text : List Char} (flush : Flush text) : trimStart text = text := by
  cases text with
  | nil => rfl
  | cons c rest =>
    have filled := flush_cons.1 flush
    rw [trimStart, List.dropWhile_cons_of_neg (by simp [filled])]

theorem head?_of_trim {text : List Char} (flush : Flush text) {c : Char}
    (h : (trim text).head? = some c) : text.head? = some c := by
  rw [trim, trimStart_of_flush flush] at h
  exact head?_of_trimEnd h

@[simp] theorem trim_trim (text : List Char) : trim (trim text) = trim text := by
  have start : trimStart (trim text) = trim text := trimStart_of_flush (flush_trim text)
  have last : trimEnd (trimEnd (trimStart text)) = trimEnd (trimStart text) :=
    List.rdropWhile_idempotent isBlank _
  rw [trim, start]
  exact last

/-- There is nothing to trim off between two characters that are no blanks. -/
theorem trim_of_visible_ends {first last : Char} {text : List Char}
    (start : isBlank first = false) (ending : isBlank last = false) :
    trim (first :: (text ++ [last])) = first :: (text ++ [last]) := by
  have flush : trimStart (first :: (text ++ [last])) = first :: (text ++ [last]) :=
    trimStart_of_flush (flush_cons.2 start)
  rw [trim, flush, trimEnd, ← List.cons_append, List.reverse_append, List.reverse_singleton,
    List.singleton_append, List.dropWhile_cons_of_neg (by simp [ending]), List.reverse_cons,
    List.reverse_reverse]

/-! ### What is taken off -/

section Blanks

variable {text gap : List Char}

theorem trim_blanks_append (blanks : ∀ c ∈ gap, isBlank c = true) (text : List Char) :
    trim (gap ++ text) = trim text := by
  rw [trim, trimStart, List.dropWhile_append_of_pos blanks]
  rfl

theorem trim_append_blanks (blanks : ∀ c ∈ gap, isBlank c = true) (text : List Char) :
    trim (text ++ gap) = trim text := by
  have ends (text : List Char) : trimEnd (text ++ gap) = trimEnd text := by
    rw [trimEnd, List.reverse_append, List.dropWhile_append_of_pos (by simpa using blanks)]
    rfl
  have nothing : gap.dropWhile isBlank = [] := List.dropWhile_eq_nil_iff.2 blanks
  rw [trim, trimStart, List.dropWhile_append]
  split
  · rename_i blank
    rw [List.isEmpty_iff] at blank
    rw [nothing, trim, trimStart, blank]
  · rw [ends]
    rfl

/-- What trimming takes off is blank. -/
theorem exists_blanks_trim (text : List Char) :
    ∃ lead trail, text = lead ++ (trim text ++ trail) ∧ (∀ c ∈ lead, isBlank c = true) ∧
      ∀ c ∈ trail, isBlank c = true := by
  have start := List.takeWhile_append_dropWhile (p := isBlank) (l := text)
  have ending := List.takeWhile_append_dropWhile (p := isBlank) (l := (trimStart text).reverse)
  refine ⟨text.takeWhile isBlank, ((trimStart text).reverse.takeWhile isBlank).reverse, ?_, ?_, ?_⟩
  · rw [trim, trimEnd, ← List.reverse_append, ending, List.reverse_reverse]
    exact start.symm
  · exact fun c member => List.mem_takeWhile_imp member
  · exact fun c member => List.mem_takeWhile_imp (List.mem_reverse.1 member)

theorem trim_infix (text : List Char) : trim text <:+: text := by
  obtain ⟨lead, trail, whole, _⟩ := exists_blanks_trim text
  exact ⟨lead, trail, by rw [List.append_assoc, ← whole]⟩

theorem mem_trim {c : Char} (member : c ∈ text) (visible : isBlank c = false) : c ∈ trim text := by
  obtain ⟨lead, trail, whole, before, after⟩ := exists_blanks_trim text
  rw [whole, List.mem_append, List.mem_append] at member
  rcases member with taken | left | taken
  · rw [before c taken] at visible
    cases visible
  · exact left
  · rw [after c taken] at visible
    cases visible

end Blanks

end SicXe.Text
