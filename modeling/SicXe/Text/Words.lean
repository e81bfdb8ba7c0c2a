import SicXe.Text.Blank

/-!
# Words

A word is a run of characters between blanks. `splitQuoted` lets chosen characters quote: from one
quote to the next a blank is part of the word, and the quotes stay in it.
-/
namespace SicXe.Text

/-- A word in front of the words that follow it; an empty one is none. -/
def consWord (word : List Char) (words : List (List Char)) : List (List Char) :=
  if word.isEmpty then words else word :: words

/-- Reads on inside a word, quoted or not: what is left of that word, and the words after it.
A quote turns quoting on or off before it is looked at itself. -/
def splitQuoted (isQuote : Char → Bool) : Bool → List Char → List Char × List (List Char)
  | _, [] => ([], [])
  | quoted, c :: rest =>
    let quoted := quoted != isQuote c
    let next := splitQuoted isQuote quoted rest
    if isBlank c && !quoted then ([], consWord next.1 next.2) else (c :: next.1, next.2)

/-- The words of a text in which blanks between quotes do not separate. -/
def quotedWords (isQuote : Char → Bool) (text : List Char) : List (List Char) :=
  consWord (splitQuoted isQuote false text).1 (splitQuoted isQuote false text).2

theorem ne_nil_of_mem_consWord {word w : List Char} {words : List (List Char)}
    (known : ∀ w ∈ words, w ≠ []) (h : w ∈ consWord word words) : w ≠ [] := by
  unfold consWord at h
  split at h
  · exact known w h
  · rename_i filled
    rcases List.mem_cons.1 h with rfl | later
    · simpa using filled
    · exact known w later

theorem ne_nil_of_mem_splitQuoted (isQuote : Char → Bool) (quoted : Bool) (text : List Char) :
    ∀ w ∈ (splitQuoted isQuote quoted text).2, w ≠ [] := by
  induction text generalizing quoted with
  | nil => simp [splitQuoted]
  | cons c rest ih =>
    intro w h
    simp only [splitQuoted] at h
    split at h
    · exact ne_nil_of_mem_consWord (ih _) h
    · exact ih _ w h

/-- No word is empty. -/
theorem ne_nil_of_mem_quotedWords (isQuote : Char → Bool) (text : List Char) :
    ∀ w ∈ quotedWords isQuote text, w ≠ [] := fun _ h =>
  ne_nil_of_mem_consWord (ne_nil_of_mem_splitQuoted isQuote false text) h

/-- The words of a text. -/
def words (text : List Char) : List (List Char) := quotedWords (fun _ => false) text

/-- The words of a text as strings. -/
def wordsOf (text : String) : List String := (words text.toList).map String.ofList

/-- The parts of a text between separators, the empty ones too. -/
def splitAt (separator : Char) : List Char → List (List Char)
  | [] => [[]]
  | c :: rest =>
    let parts := splitAt separator rest
    if c = separator then [] :: parts
    else match parts with
      | [] => [[c]]
      | first :: following => (c :: first) :: following

end SicXe.Text
