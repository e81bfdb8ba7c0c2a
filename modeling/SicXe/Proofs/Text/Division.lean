import SicXe.Proofs.Text.Quoted

/-!
# The division of a text

A blank separates words if an even number of quotes stand before it (`separates`). What a division of a text
into words is, is said with these blanks alone (`Division`); the words of the text are its only one
(`quotedWords_eq_iff`).
-/
namespace SicXe.Text

variable {isQuote : Char → Bool}

/-- Whether a character separates words, with what stands before it in the text. -/
def separates (isQuote : Char → Bool) (before : List Char) (c : Char) : Bool :=
  isBlank c && decide (Even (before.countP isQuote))

theorem separates_iff {before : List Char} {c : Char} :
    separates isQuote before c = true ↔
      isBlank c = true ∧ quotedAfter isQuote false before = false := by
  rw [separates, Bool.and_eq_true, decide_eq_true_eq, quotedAfter_eq_false_iff]

/-- What is left of a text that stands behind `before`, without the blanks that separate. -/
def unseparated (isQuote : Char → Bool) (before : List Char) : List Char → List Char
  | [] => []
  | c :: rest =>
    if separates isQuote before c then unseparated isQuote (before ++ [c]) rest
    else c :: unseparated isQuote (before ++ [c]) rest

/-- What the words of a text are, and how they stand in it. -/
structure Division (isQuote : Char → Bool) (text : List Char) (words : List (List Char)) : Prop where
  filled : ∀ w ∈ words, w ≠ []
  flush : ∀ w ∈ words, Flush w
  /-- A blank in a word is quoted, by a quote of the same word. -/
  quoted : ∀ w ∈ words, ∀ before blank after, w = before ++ blank :: after →
    isBlank blank = true → Odd (before.countP isQuote)
  /-- Only the last word may end within a quotation. -/
  closed : ∀ w ∈ words.dropLast, Even (w.countP isQuote)
  /-- The words have all characters of the text, but for the blanks that separate. -/
  joined : words.flatten = unseparated isQuote [] text
  /-- Two words that follow each other have a blank that separates between them. -/
  parted : ∀ front first second later, words = front ++ first :: second :: later →
    ∃ before blank after, text = before ++ blank :: after ∧ separates isQuote before blank = true ∧
      unseparated isQuote [] before = (front ++ [first]).flatten ∧
      unseparated isQuote (before ++ [blank]) after = (second :: later).flatten
  /-- No word reaches over a blank that separates. -/
  cut : ∀ before blank after, text = before ++ blank :: after →
    separates isQuote before blank = true →
    ∃ front later, words = front ++ later ∧ unseparated isQuote [] before = front.flatten

variable {text : List Char} {words others : List (List Char)}

/-! ### The words of a text -/

theorem flatten_consWord (word : List Char) (words : List (List Char)) :
    (consWord word words).flatten = word ++ words.flatten := by
  cases word <;> simp [consWord]

section Words

variable (visible : ∀ c, isQuote c = true → isBlank c = false)

include visible

theorem append_flatten_splitQuoted (before text : List Char) :
    (splitQuoted isQuote (quotedAfter isQuote false before) text).1 ++
        (splitQuoted isQuote (quotedAfter isQuote false before) text).2.flatten =
      unseparated isQuote before text := by
  induction text generalizing before with
  | nil => rfl
  | cons c rest ih =>
    have later := ih (before ++ [c])
    have state : quotedAfter isQuote false (before ++ [c]) =
        (quotedAfter isQuote false before != isQuote c) := quotedAfter_append false before [c]
    rw [state] at later
    -- A blank is no quote, so the state behind it, which is looked at, is the state before it.
    have same : (isBlank c && !(quotedAfter isQuote false before != isQuote c)) =
        separates isQuote before c := by
      rw [Bool.eq_iff_iff, separates_iff, Bool.and_eq_true, Bool.not_eq_true']
      refine and_congr_right fun blank => ?_
      rw [isQuote_of_isBlank visible blank, Bool.bne_false]
    rw [splitQuoted, unseparated, ← later, same]
    split
    · rw [List.nil_append, flatten_consWord]
    · rfl

/-- Outside of a quotation only the blanks that separate are in no word. -/
theorem flatten_quotedWords {before : List Char} (outside : quotedAfter isQuote false before = false)
    (text : List Char) : (quotedWords isQuote text).flatten = unseparated isQuote before text := by
  have whole := append_flatten_splitQuoted visible before text
  rw [outside] at whole
  rw [quotedWords, flatten_consWord, whole]

theorem division_quotedWords (text : List Char) :
    Division isQuote text (quotedWords isQuote text) := by
  have divided := divided_quotedWords visible text
  have all (text : List Char) : unseparated isQuote [] text = (quotedWords isQuote text).flatten :=
    (flatten_quotedWords visible rfl text).symm
  refine ⟨ne_nil_of_mem_quotedWords isQuote text, ?_, ?_, ?_, (all text).symm, ?_, ?_⟩
  · exact fun w member => flush_of_mem_quotedWords visible member
  · rintro w member before blank after rfl here
    rw [← quotedAfter_eq_true_iff]
    exact quotedAfter_of_whole visible (divided.whole _ member) here
  · intro w member
    rw [← quotedAfter_eq_false_iff]
    exact divided.closed w member
  · intro front first second later parts
    rw [List.append_cons] at parts
    obtain ⟨before, blank, after, rfl, here, outside, words_before⟩ :=
      divided.exists_cut visible parts (by simp) (List.cons_ne_nil second later)
    rw [quotedWords_append visible outside here, words_before, List.append_right_inj] at parts
    have outside' : quotedAfter isQuote false (before ++ [blank]) = false := by
      rw [quotedAfter_append, outside]
      exact quotedAfter_of_no_quote (by simpa using isQuote_of_isBlank visible here) false
    refine ⟨before, blank, after, rfl, separates_iff.2 ⟨here, outside⟩, ?_, ?_⟩
    · rw [all, words_before]
    · rw [← flatten_quotedWords visible outside', parts]
  · rintro before blank after rfl between
    obtain ⟨here, outside⟩ := separates_iff.1 between
    exact ⟨quotedWords isQuote before, quotedWords isQuote after,
      quotedWords_append visible outside here after, all before⟩

end Words

/-! ### No other division -/

/-- Whether words end only where other words end too. Of two divisions of a text each is coarser than the
other. -/
def Coarser (words others : List (List Char)) : Prop :=
  ∀ front later, words = front ++ later →
    ∃ front' later', others = front' ++ later' ∧ front'.flatten = front.flatten

theorem Coarser.exists_cons {word : List Char} (coarser : Coarser (word :: words) others)
    (filled : word ≠ []) : ∃ first later, others = first :: later ∧ first <+: word := by
  obtain ⟨front, later, rfl, same⟩ := coarser [word] words rfl
  rw [List.flatten_singleton] at same
  cases front with
  | nil => exact absurd same.symm filled
  | cons first front => exact ⟨first, front ++ later, rfl, front.flatten, same⟩

theorem Coarser.tail {word : List Char} (coarser : Coarser (word :: words) (word :: others))
    (filled : word ≠ []) : Coarser words others := by
  rintro front later rfl
  obtain ⟨front', later', parts, same⟩ := coarser (word :: front) later rfl
  cases front' with
  | nil =>
    rw [List.flatten_cons, List.flatten_nil, eq_comm, List.append_eq_nil_iff] at same
    exact absurd same.1 filled
  | cons first front' =>
    obtain ⟨rfl, following⟩ := List.cons.inj parts
    exact ⟨front', later', following, List.append_cancel_left same⟩

theorem eq_of_coarser (filled : ∀ w ∈ words, w ≠ []) (filled' : ∀ w ∈ others, w ≠ [])
    (coarser : Coarser words others) (coarser' : Coarser others words) : words = others := by
  induction words generalizing others with
  | nil =>
    cases others with
    | nil => rfl
    | cons first later =>
      obtain ⟨_, _, parts, _⟩ := coarser'.exists_cons (List.forall_mem_cons.1 filled').1
      cases parts
  | cons word words ih =>
    obtain ⟨filled_word, filled_words⟩ := List.forall_mem_cons.1 filled
    obtain ⟨first, later, rfl, short⟩ := coarser.exists_cons filled_word
    obtain ⟨filled_first, filled_later⟩ := List.forall_mem_cons.1 filled'
    obtain ⟨_, _, parts, long⟩ := coarser'.exists_cons filled_first
    cases parts
    obtain rfl := short.eq_of_length_le long.length_le
    rw [ih filled_words filled_later (coarser.tail filled_word) (coarser'.tail filled_word)]

theorem Division.coarser (division : Division isQuote text words)
    (division' : Division isQuote text others) : Coarser words others := by
  intro front later parts
  cases later with
  | nil =>
    rw [List.append_nil] at parts
    rw [← parts, division.joined, ← division'.joined]
    exact ⟨others, [], (List.append_nil _).symm, rfl⟩
  | cons second later =>
    rcases List.eq_nil_or_concat front with rfl | ⟨front, first, rfl⟩
    · exact ⟨[], others, rfl, rfl⟩
    · rw [List.concat_eq_append, List.append_assoc] at parts
      obtain ⟨before, blank, after, text_parts, between, words_before, _⟩ :=
        division.parted front first second later parts
      obtain ⟨front', later', parts', same⟩ := division'.cut before blank after text_parts between
      exact ⟨front', later', parts', by rw [← same, words_before, List.concat_eq_append]⟩

/-- The words of a text are its only division. -/
theorem quotedWords_eq_iff (visible : ∀ c, isQuote c = true → isBlank c = false) :
    quotedWords isQuote text = words ↔ Division isQuote text words := by
  constructor
  · rintro rfl
    exact division_quotedWords visible text
  · intro division'
    have division := division_quotedWords visible text
    exact eq_of_coarser division.filled division'.filled (division.coarser division')
      (division'.coarser division)

end SicXe.Text
