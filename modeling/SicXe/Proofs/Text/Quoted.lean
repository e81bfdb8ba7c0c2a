import Mathlib.Algebra.Ring.Parity
import SicXe.Proofs.Text.Blank
import SicXe.Proofs.Text.Words

/-!
# Words with quotations

A text is cut at all blanks that are not quoted and at no others, and the pieces are its words, but for the
empty ones (`divided_quotedWords`). So a blank in a word is quoted (`quotedAfter_of_whole`), all words but the
last end outside of quotations, and words are read back from a text in which blanks stand between them
(`quotedWords_intercalate`). A quotation that does not end takes in the rest of the text.
-/
namespace SicXe.Text

variable {isQuote : Char → Bool}

/-! ### Quotations -/

/-- Each quote begins or ends a quotation. -/
theorem quotedAfter_eq (quoted : Bool) (text : List Char) :
    quotedAfter isQuote quoted text = (quoted != decide (Odd (text.countP isQuote))) := by
  have flips (n : Nat) : decide (Odd (n + 1)) = !decide (Odd n) := by
    rw [← decide_not, decide_eq_decide]
    exact Nat.odd_add_one
  induction text generalizing quoted with
  | nil => simp [quotedAfter]
  | cons c rest ih =>
    have step : quotedAfter isQuote quoted (c :: rest) =
        quotedAfter isQuote (quoted != isQuote c) rest := rfl
    rw [step, ih, List.countP_cons]
    cases isQuote c with
    | false => rw [Bool.bne_false, if_neg Bool.false_ne_true, Nat.add_zero]
    | true =>
      rw [if_pos rfl, flips]
      cases quoted <;> simp

theorem quotedAfter_eq_true_iff (text : List Char) :
    quotedAfter isQuote false text = true ↔ Odd (text.countP isQuote) := by
  simp [quotedAfter_eq]

theorem quotedAfter_eq_false_iff (text : List Char) :
    quotedAfter isQuote false text = false ↔ Even (text.countP isQuote) := by
  simp [quotedAfter_eq]

/-! ### Pieces -/

section Pieces

variable {text piece : List Char}

theorem quotedWords_of_whole (whole : splitQuoted isQuote false piece = (piece, [])) :
    quotedWords isQuote piece = consWord piece [] := by
  rw [quotedWords, whole]

/-- A text and its words, which are the pieces between the blanks that separate. Only the last piece may end
within a quotation. -/
inductive Divided (isQuote : Char → Bool) : List Char → List (List Char) → Prop where
  | last {piece : List Char} (whole : splitQuoted isQuote false piece = (piece, [])) :
      Divided isQuote piece (consWord piece [])
  | next {piece rest : List Char} {blank : Char} {words : List (List Char)}
      (whole : splitQuoted isQuote false piece = (piece, []))
      (closed : quotedAfter isQuote false piece = false) (between : isBlank blank = true)
      (divided : Divided isQuote rest words) :
      Divided isQuote (piece ++ blank :: rest) (consWord piece words)

variable (visible : ∀ c, isQuote c = true → isBlank c = false)

include visible

/-- A text has no blank that separates, or there is a first one. -/
theorem exists_piece (quoted : Bool) (text : List Char) :
    splitQuoted isQuote quoted text = (text, []) ∨
      ∃ piece blank rest, text = piece ++ blank :: rest ∧
        splitQuoted isQuote quoted piece = (piece, []) ∧
        quotedAfter isQuote quoted piece = false ∧ isBlank blank = true := by
  induction text generalizing quoted with
  | nil => exact .inl rfl
  | cons c rest ih =>
    by_cases separates : isBlank c = true ∧ (quoted != isQuote c) = false
    · obtain ⟨blank, outside⟩ := separates
      rw [isQuote_of_isBlank visible blank, Bool.bne_false] at outside
      exact .inr ⟨[], c, rest, rfl, rfl, outside, blank⟩
    · have stays (text : List Char) : splitQuoted isQuote quoted (c :: text) =
          (c :: (splitQuoted isQuote (quoted != isQuote c) text).1,
            (splitQuoted isQuote (quoted != isQuote c) text).2) := by
        rw [splitQuoted, if_neg]
        simpa using separates
      rcases ih (quoted != isQuote c) with whole | ⟨piece, blank, rest, rfl, whole, closed, between⟩
      · exact .inl (by rw [stays, whole])
      · exact .inr ⟨c :: piece, blank, rest, rfl, by rw [stays, whole], closed, between⟩

theorem quotedWords_piece (whole : splitQuoted isQuote false piece = (piece, []))
    (closed : quotedAfter isQuote false piece = false) {blank : Char} (between : isBlank blank = true)
    (rest : List Char) :
    quotedWords isQuote (piece ++ blank :: rest) = consWord piece (quotedWords isQuote rest) := by
  rw [quotedWords_append visible closed between, quotedWords_of_whole whole, ← consWord_append,
    List.nil_append]

theorem divided_quotedWords (text : List Char) : Divided isQuote text (quotedWords isQuote text) := by
  rcases exists_piece visible false text with whole | ⟨piece, blank, rest, parts, whole, closed, between⟩
  · rw [quotedWords_of_whole whole]
    exact .last whole
  · have shorter : rest.length < text.length := by
      rw [parts, List.length_append, List.length_cons]
      omega
    rw [parts, quotedWords_piece visible whole closed between]
    exact .next whole closed between (divided_quotedWords rest)
termination_by text.length

/-- A blank that is not quoted ends a word. -/
theorem quotedAfter_of_whole {quoted : Bool} {before after : List Char} {blank : Char}
    (whole : splitQuoted isQuote quoted (before ++ blank :: after) = (before ++ blank :: after, []))
    (here : isBlank blank = true) : quotedAfter isQuote quoted before = true := by
  by_contra outside
  rw [Bool.not_eq_true] at outside
  have parts := splitQuoted_append visible outside here after
  rw [whole, Prod.mk.injEq] at parts
  have short := (splitQuoted_sublist isQuote quoted before).1.length_le
  rw [← parts.1, List.length_append, List.length_cons] at short
  omega

theorem flush_of_whole (whole : splitQuoted isQuote false piece = (piece, [])) : Flush piece := by
  cases piece with
  | nil => exact flush_nil
  | cons c rest =>
    rw [flush_cons, ← Bool.not_eq_true]
    intro blank
    have quoted : quotedAfter isQuote false [] = true :=
      @quotedAfter_of_whole isQuote visible false [] rest c whole blank
    cases quoted

end Pieces

/-! ### Words -/

section Words

variable {word : List Char} {words : List (List Char)}

theorem consWord_eq_nil_iff : consWord word words = [] ↔ word = [] ∧ words = [] := by
  cases word <;> simp [consWord]

theorem mem_dropLast_consWord {w : List Char} (member : w ∈ (consWord word words).dropLast) :
    (w = word ∧ words ≠ []) ∨ w ∈ words.dropLast := by
  cases word with
  | nil => exact .inr member
  | cons c word =>
    rw [consWord_of_ne_nil (List.cons_ne_nil c word)] at member
    cases words with
    | nil => cases member
    | cons next others =>
      rw [List.dropLast_cons_of_ne_nil (List.cons_ne_nil next others)] at member
      exact (List.mem_cons.1 member).imp_left fun same => ⟨same, List.cons_ne_nil next others⟩

variable {text : List Char}

theorem Divided.whole (divided : Divided isQuote text words) :
    ∀ w ∈ words, splitQuoted isQuote false w = (w, []) := by
  induction divided with
  | last whole =>
    exact fun w => of_mem_consWord (P := fun w => splitQuoted isQuote false w = (w, [])) whole
      (List.forall_mem_nil _)
  | next whole _ _ _ ih =>
    exact fun w => of_mem_consWord (P := fun w => splitQuoted isQuote false w = (w, [])) whole ih

theorem Divided.closed (divided : Divided isQuote text words) :
    ∀ w ∈ words.dropLast, quotedAfter isQuote false w = false := by
  induction divided with
  | last _ =>
    intro w member
    rcases mem_dropLast_consWord member with ⟨_, others⟩ | later
    · exact absurd rfl others
    · cases later
  | next _ closed _ _ ih =>
    intro w member
    rcases mem_dropLast_consWord member with ⟨rfl, _⟩ | later
    · exact closed
    · exact ih w later

variable (visible : ∀ c, isQuote c = true → isBlank c = false)

include visible

theorem flush_of_mem_quotedWords {w : List Char} (member : w ∈ quotedWords isQuote text) : Flush w :=
  flush_of_whole visible ((divided_quotedWords visible text).whole w member)

theorem Divided.eq_nil_iff (divided : Divided isQuote text words) :
    words = [] ↔ ∀ c ∈ text, isBlank c = true := by
  have filled {piece : List Char} (whole : splitQuoted isQuote false piece = (piece, [])) :
      piece = [] ↔ ∀ c ∈ piece, isBlank c = true := by
    cases piece with
    | nil => simp
    | cons c rest =>
      have first := flush_cons.1 (flush_of_whole visible whole)
      simp [first]
  induction divided with
  | last whole => rw [consWord_eq_nil_iff, filled whole, and_iff_left rfl]
  | next whole _ between _ ih =>
    rw [consWord_eq_nil_iff, List.forall_mem_append, List.forall_mem_cons, and_iff_right between]
    exact and_congr (filled whole) ih

/-- Between two words stands a blank that separates. -/
theorem Divided.exists_cut {front later : List (List Char)} (divided : Divided isQuote text words)
    (parts : words = front ++ later) (some_before : front ≠ []) (some_behind : later ≠ []) :
    ∃ before blank after, text = before ++ blank :: after ∧ isBlank blank = true ∧
      quotedAfter isQuote false before = false ∧ quotedWords isQuote before = front := by
  induction divided generalizing front with
  | @last piece _ =>
    have one : (consWord piece []).length ≤ 1 := by cases piece <;> simp [consWord]
    have two := List.length_pos_of_ne_nil some_before
    have two' := List.length_pos_of_ne_nil some_behind
    rw [parts, List.length_append] at one
    omega
  | @next piece rest blank others whole closed between _ ih =>
    -- The cut is behind the piece, or right at its end.
    have behind {front : List (List Char)} (parts : others = front ++ later) (filled : front ≠ []) :
        ∃ before blank' after, piece ++ blank :: rest = before ++ blank' :: after ∧
          isBlank blank' = true ∧ quotedAfter isQuote false before = false ∧
          quotedWords isQuote before = consWord piece front := by
      obtain ⟨before, blank', after, rfl, here, outside, words⟩ := ih parts filled
      refine ⟨piece ++ blank :: before, blank', after, by simp, here, ?_, ?_⟩
      · rw [quotedAfter_append, closed, quotedAfter, List.foldl_cons,
          isQuote_of_isBlank visible between]
        exact outside
      · rw [quotedWords_piece visible whole closed between, words]
    cases piece with
    | nil => exact behind parts some_before
    | cons c piece =>
      obtain ⟨first, front, rfl⟩ := List.exists_cons_of_ne_nil some_before
      obtain ⟨rfl, following⟩ := List.cons.inj parts
      cases front with
      | nil => exact ⟨c :: piece, blank, rest, rfl, between, closed, quotedWords_of_whole whole⟩
      | cons next front => exact behind following (List.cons_ne_nil next front)

/-- Words with a blank between each two are read back. -/
theorem quotedWords_intercalate {blank : Char} (between : isBlank blank = true)
    (filled : ∀ w ∈ words, w ≠ []) (whole : ∀ w ∈ words, splitQuoted isQuote false w = (w, []))
    (closed : ∀ w ∈ words.dropLast, quotedAfter isQuote false w = false) :
    quotedWords isQuote ([blank].intercalate words) = words := by
  induction words with
  | nil => rfl
  | cons word others ih =>
    obtain ⟨filled_first, filled⟩ := List.forall_mem_cons.1 filled
    obtain ⟨whole_first, whole⟩ := List.forall_mem_cons.1 whole
    cases others with
    | nil =>
      rw [List.intercalate_singleton, quotedWords_of_whole whole_first,
        consWord_of_ne_nil filled_first]
    | cons next others =>
      rw [List.dropLast_cons_of_ne_nil (List.cons_ne_nil next others), List.forall_mem_cons] at closed
      rw [List.intercalate_cons_cons, List.append_assoc, List.singleton_append,
        quotedWords_piece visible whole_first closed.1 between, ih filled whole closed.2,
        consWord_of_ne_nil filled_first]

end Words

end SicXe.Text
