import SicXe.Text.Words

/-!
# What words are

The words of a text are its longest runs of visible characters (`words_eq_iff`). Behind a blank that is not
quoted, words are read as from the start (`quotedWords_append`), and the characters of a word stand in the
text as they stand in the word.
-/
namespace SicXe.Text

/-- What holds of a word and of those after it holds of all of them. -/
theorem of_mem_consWord {P : List Char → Prop} {word w : List Char} {words : List (List Char)}
    (first : P word) (others : ∀ w ∈ words, P w) (h : w ∈ consWord word words) : P w := by
  unfold consWord at h
  split at h
  · exact others w h
  · rcases List.mem_cons.1 h with rfl | later
    · exact first
    · exact others w later

theorem consWord_of_ne_nil {word : List Char} (filled : word ≠ []) (words : List (List Char)) :
    consWord word words = word :: words := by
  rw [consWord, if_neg]
  rwa [List.isEmpty_iff]

theorem splitQuoted_sublist (isQuote : Char → Bool) (quoted : Bool) (text : List Char) :
    (splitQuoted isQuote quoted text).1.Sublist text ∧
      ∀ w ∈ (splitQuoted isQuote quoted text).2, w.Sublist text := by
  induction text generalizing quoted with
  | nil => simp [splitQuoted]
  | cons c rest ih =>
    obtain ⟨first, others⟩ := ih (quoted != isQuote c)
    simp only [splitQuoted]
    split
    · refine ⟨List.nil_sublist _, fun w member => ?_⟩
      apply List.Sublist.cons
      exact of_mem_consWord (P := fun w => w.Sublist rest) first others member
    · refine ⟨first.cons_cons c, fun w member => ?_⟩
      apply List.Sublist.cons
      exact others w member

/-- The characters of a word stand in the text, in their order. -/
theorem sublist_of_mem_quotedWords {isQuote : Char → Bool} {text w : List Char}
    (h : w ∈ quotedWords isQuote text) : w.Sublist text := by
  obtain ⟨first, others⟩ := splitQuoted_sublist isQuote false text
  exact of_mem_consWord (P := fun w => w.Sublist text) first others h

/-! ### Words behind words -/

variable {isQuote : Char → Bool}

/-- Whether a text ends within a quotation. -/
def quotedAfter (isQuote : Char → Bool) (quoted : Bool) (text : List Char) : Bool :=
  text.foldl (fun quoted c => quoted != isQuote c) quoted

theorem quotedAfter_append (quoted : Bool) (text rest : List Char) :
    quotedAfter isQuote quoted (text ++ rest) =
      quotedAfter isQuote (quotedAfter isQuote quoted text) rest :=
  List.foldl_append

theorem quotedAfter_of_no_quote {text : List Char} (plain : ∀ c ∈ text, isQuote c = false)
    (quoted : Bool) : quotedAfter isQuote quoted text = quoted := by
  induction text with
  | nil => rfl
  | cons c text ih =>
    obtain ⟨first, later⟩ := List.forall_mem_cons.1 plain
    rw [quotedAfter, List.foldl_cons, first, Bool.bne_false]
    exact ih later

theorem isQuote_of_isBlank (visible : ∀ c, isQuote c = true → isBlank c = false) {c : Char}
    (blank : isBlank c = true) : isQuote c = false := by
  cases quotes : isQuote c with
  | false => rfl
  | true =>
    rw [visible c quotes] at blank
    cases blank

theorem consWord_append (word : List Char) (words others : List (List Char)) :
    consWord word (words ++ others) = consWord word words ++ others := by
  unfold consWord
  split <;> rfl

/-- Behind a blank that is not quoted, words are read as from the start. -/
theorem splitQuoted_append (visible : ∀ c, isQuote c = true → isBlank c = false) {quoted : Bool}
    {text : List Char} (closed : quotedAfter isQuote quoted text = false) {blank : Char}
    (separates : isBlank blank = true) (rest : List Char) :
    splitQuoted isQuote quoted (text ++ blank :: rest) =
      ((splitQuoted isQuote quoted text).1,
        (splitQuoted isQuote quoted text).2 ++ quotedWords isQuote rest) := by
  induction text generalizing quoted with
  | nil =>
    have plain := isQuote_of_isBlank visible separates
    have outside : quoted = false := closed
    simp only [List.nil_append, splitQuoted, outside, plain, separates, bne_self_eq_false,
      Bool.not_false, Bool.and_self, if_true]
    rfl
  | cons c text ih =>
    have later := @ih (quoted != isQuote c) closed
    simp only [List.cons_append, splitQuoted, later]
    split
    · rw [consWord_append]
    · rfl

theorem quotedWords_append (visible : ∀ c, isQuote c = true → isBlank c = false) {text : List Char}
    (closed : quotedAfter isQuote false text = false) {blank : Char}
    (separates : isBlank blank = true) (rest : List Char) :
    quotedWords isQuote (text ++ blank :: rest) =
      quotedWords isQuote text ++ quotedWords isQuote rest := by
  rw [quotedWords, splitQuoted_append visible closed separates, consWord_append]
  rfl

/-- Characters that are no quotes stay in a piece, blanks too while a quotation lasts. -/
theorem splitQuoted_append_of_joining {quoted : Bool} {piece : List Char}
    (joining : ∀ c ∈ piece, isQuote c = false ∧ (isBlank c = true → quoted = true))
    (rest : List Char) :
    splitQuoted isQuote quoted (piece ++ rest) =
      (piece ++ (splitQuoted isQuote quoted rest).1, (splitQuoted isQuote quoted rest).2) := by
  induction piece with
  | nil => rfl
  | cons c piece ih =>
    obtain ⟨⟨no_quote, quoted_blank⟩, later⟩ := List.forall_mem_cons.1 joining
    have stays : (isBlank c && !quoted) = false := by
      cases blank : isBlank c with
      | false => rfl
      | true => rw [quoted_blank blank]; rfl
    simp only [List.cons_append, splitQuoted, no_quote, Bool.bne_false, ih later, stays,
      Bool.false_eq_true, if_false]

/-! ### The words of a text -/

/-- A text and its words: visible characters, as many as stand together, with blanks around them. -/
inductive Worded : List Char → List (List Char) → Prop where
  | blank {gap : List Char} (blanks : ∀ c ∈ gap, isBlank c = true) : Worded gap []
  | word {gap word rest : List Char} {others : List (List Char)}
      (blanks : ∀ c ∈ gap, isBlank c = true) (filled : word ≠ [])
      (visible : ∀ c ∈ word, isBlank c = false)
      (apart : ∀ c, rest.head? = some c → isBlank c = true) (worded : Worded rest others) :
      Worded (gap ++ (word ++ rest)) (word :: others)

variable {text w : List Char}

theorem Worded.cons_blank {c : Char} (blank : isBlank c = true) {ws : List (List Char)}
    (worded : Worded text ws) : Worded (c :: text) ws := by
  cases worded with
  | blank blanks => exact .blank (List.forall_mem_cons.2 ⟨blank, blanks⟩)
  | word blanks filled visible apart worded =>
    rw [← List.cons_append]
    exact .word (List.forall_mem_cons.2 ⟨blank, blanks⟩) filled visible apart worded

theorem Worded.visible {ws : List (List Char)} (worded : Worded text ws) (member : w ∈ ws) :
    w ≠ [] ∧ ∀ c ∈ w, isBlank c = false := by
  induction worded with
  | blank => cases member
  | word _ filled visible _ _ ih =>
    rcases List.mem_cons.1 member with rfl | later
    · exact ⟨filled, visible⟩
    · exact ih later

theorem worded_consWord {rest : List Char} {others : List (List Char)}
    (visible : ∀ c ∈ w, isBlank c = false) (apart : ∀ c, rest.head? = some c → isBlank c = true)
    (worded : Worded rest others) : Worded (w ++ rest) (consWord w others) := by
  cases w with
  | nil => exact worded
  | cons c w => exact .word (List.forall_mem_nil _) (List.cons_ne_nil _ _) visible apart worded

/-- The rest of a word is visible, and the other words come behind a blank. -/
theorem splitQuoted_plain (text : List Char) :
    ∃ rest, text = (splitQuoted (fun _ => false) false text).1 ++ rest ∧
      (∀ c ∈ (splitQuoted (fun _ => false) false text).1, isBlank c = false) ∧
      (∀ c, rest.head? = some c → isBlank c = true) ∧
      Worded rest (splitQuoted (fun _ => false) false text).2 := by
  induction text with
  | nil => exact ⟨[], rfl, by simp [splitQuoted], by simp, .blank (by simp)⟩
  | cons c text ih =>
    obtain ⟨rest, parts, visible, apart, worded⟩ := ih
    simp only [splitQuoted, bne_self_eq_false, Bool.not_false, Bool.and_true]
    split
    · rename_i blank
      have next := worded_consWord visible apart worded
      rw [← parts] at next
      exact ⟨c :: text, rfl, List.forall_mem_nil _, by simpa using blank, next.cons_blank blank⟩
    · rename_i seen
      refine ⟨rest, by rw [List.cons_append, ← parts], ?_, apart, worded⟩
      exact List.forall_mem_cons.2 ⟨by simpa using seen, visible⟩

theorem worded_words (text : List Char) : Worded text (words text) := by
  obtain ⟨rest, parts, visible, apart, worded⟩ := splitQuoted_plain text
  have whole := worded_consWord visible apart worded
  rwa [← parts] at whole

theorem words_append (text : List Char) {blank : Char} (separates : isBlank blank = true)
    (rest : List Char) : words (text ++ blank :: rest) = words text ++ words rest := by
  have plain : quotedAfter (fun _ => false) false text = false :=
    quotedAfter_of_no_quote (fun _ _ => rfl) false
  have visible (c : Char) (quotes : (fun _ : Char => false) c = true) : isBlank c = false :=
    nomatch quotes
  exact quotedWords_append visible plain separates rest

theorem words_blanks {gap : List Char} (blanks : ∀ c ∈ gap, isBlank c = true) (text : List Char) :
    words (gap ++ text) = words text := by
  induction gap with
  | nil => rfl
  | cons c gap ih =>
    obtain ⟨first, later⟩ := List.forall_mem_cons.1 blanks
    exact (words_append [] first (gap ++ text)).trans (ih later)

theorem words_visible {word : List Char} (filled : word ≠ [])
    (visible : ∀ c ∈ word, isBlank c = false) : words word = [word] := by
  have joining (c : Char) (member : c ∈ word) :
      (fun _ => false) c = false ∧ (isBlank c = true → false = true) :=
    ⟨rfl, fun blank => (visible c member).symm.trans blank⟩
  have whole := splitQuoted_append_of_joining joining []
  rw [List.append_nil] at whole
  rw [words, quotedWords, whole, splitQuoted, List.append_nil, consWord_of_ne_nil filled]

/-- The words between single spaces. -/
theorem words_of_three {first second third : List Char}
    (parts : ∀ w ∈ [first, second, third], w ≠ [] ∧ ∀ c ∈ w, isBlank c = false) :
    words (first ++ ' ' :: (second ++ ' ' :: third)) = [first, second, third] := by
  have space : isBlank ' ' = true := by decide
  have single {w : List Char} (member : w ∈ [first, second, third]) : words w = [w] :=
    words_visible (parts w member).1 (parts w member).2
  rw [words_append _ space, words_append _ space, single (by simp), single (by simp),
    single (by simp)]
  rfl

/-- The words of a text are what stands between its blanks. -/
theorem words_eq_iff {ws : List (List Char)} : words text = ws ↔ Worded text ws := by
  constructor
  · rintro rfl
    exact worded_words text
  · intro worded
    induction worded with
    | @blank gap blanks =>
      have nothing := words_blanks blanks []
      rwa [List.append_nil] at nothing
    | @word gap word rest others blanks filled visible apart _ ih =>
      rw [words_blanks blanks]
      cases rest with
      | nil => rw [List.append_nil, words_visible filled visible, ← ih]; rfl
      | cons c rest =>
        have separates := apart c rfl
        have next : words rest = others := (words_append [] separates rest).symm.trans ih
        rw [words_append word separates, words_visible filled visible, next]
        rfl

/-- A word has no blank in it. -/
theorem isBlank_of_mem_words (h : w ∈ words text) {c : Char} (inside : c ∈ w) : isBlank c = false :=
  ((worded_words text).visible h).2 c inside

/-- Only a blank text has no words. -/
theorem words_eq_nil_iff (text : List Char) : words text = [] ↔ ∀ c ∈ text, isBlank c = true := by
  rw [words_eq_iff]
  exact ⟨fun worded => by cases worded; assumption, .blank⟩

end SicXe.Text
