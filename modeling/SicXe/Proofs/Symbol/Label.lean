import SicXe.Symbol.Label

/-!
# Normal forms of labels

`normalize` accepts a text exactly if the text without its outer blanks breaks no rule, and what it
gives back is accepted again and left alone (`normalize_of_normalize`). So it does not matter whether
a table is asked for a label as it was written or for the form in which the label is stored.
-/
namespace SicXe

theorem eq_ok_of_toOption {ε α : Type} {result : Except ε α} {a : α}
    (h : result.toOption = some a) : result = .ok a := by
  cases result with
  | error e => cases h
  | ok a' => cases h; rfl

namespace Text

theorem dropWhile_eq_self {p : Char → Bool} {text : List Char} (h : ∀ c ∈ text, p c = false) :
    text.dropWhile p = text := by
  cases text with
  | nil => rfl
  | cons c rest => rw [List.dropWhile_cons, h c (by simp), if_neg (by simp)]

/-- There is nothing to trim off a text that has no blanks. -/
theorem trim_of_no_blank {text : List Char} (h : ∀ c ∈ text, isBlank c = false) :
    trim text = text := by
  have start : trimStart text = text := dropWhile_eq_self h
  unfold trim trimEnd
  rw [start, dropWhile_eq_self (fun c member => h c (List.mem_reverse.1 member)),
    List.reverse_reverse]

end Text

namespace Label

/-- The letters that change are those from `a` to `z`, and they become those from `A` to `Z`. -/
theorem toUpper_cases (c : Char) :
    (c.toUpper = c ∧ ¬ (97 ≤ c.toNat ∧ c.toNat ≤ 122)) ∨
      (97 ≤ c.toNat ∧ c.toNat ≤ 122 ∧ c.toUpper.toNat = c.toNat - 32) := by
  unfold Char.toUpper
  split
  · rename_i lower
    have bounds : 97 ≤ c.val.toNat ∧ c.val.toNat ≤ 122 := lower
    refine Or.inr ⟨bounds.1, bounds.2, ?_⟩
    change (c.val + ('A'.val - 'a'.val)).toNat = c.val.toNat - 32
    rw [UInt32.toNat_add]
    have shift : ('A'.val - 'a'.val).toNat = 4294967264 := by decide
    omega
  · rename_i other
    exact Or.inl ⟨rfl, other⟩

theorem isAlpha_iff (c : Char) :
    c.isAlpha = true ↔ (65 ≤ c.toNat ∧ c.toNat ≤ 90) ∨ (97 ≤ c.toNat ∧ c.toNat ≤ 122) := by
  have ranges : c.isAlpha = (decide (c.val ≥ 'A'.val ∧ c.val ≤ 'Z'.val) ||
    (c.val ≥ 'a'.val && c.val ≤ 'z'.val)) := rfl
  rw [ranges]
  simp only [Bool.or_eq_true, Bool.and_eq_true, decide_eq_true_eq]
  exact Iff.rfl

theorem isLabelChar_iff (c : Char) :
    isLabelChar c = true ↔ c.isAlpha = true ∨ (48 ≤ c.toNat ∧ c.toNat ≤ 57) ∨ c.toNat = 95 := by
  have underscore : c = '_' ↔ c.toNat = 95 := by
    rw [← Char.toNat_inj]
    exact Iff.rfl
  simp only [isLabelChar, Char.isAlphanum, Char.isDigit, Bool.or_eq_true, Bool.and_eq_true,
    decide_eq_true_eq, underscore, or_assoc]
  exact Iff.rfl

theorem isAlpha_toUpper (c : Char) : c.toUpper.isAlpha = c.isAlpha := by
  rw [Bool.eq_iff_iff, isAlpha_iff, isAlpha_iff]
  rcases toUpper_cases c with ⟨same, _⟩ | ⟨lower, upper, shifted⟩
  · rw [same]
  · omega

theorem isLabelChar_toUpper (c : Char) : isLabelChar c.toUpper = isLabelChar c := by
  rw [Bool.eq_iff_iff, isLabelChar_iff, isLabelChar_iff, isAlpha_toUpper]
  rcases toUpper_cases c with ⟨same, _⟩ | ⟨lower, upper, shifted⟩
  · rw [same]
  · rw [isAlpha_iff]
    omega

theorem toUpper_toUpper (c : Char) : c.toUpper.toUpper = c.toUpper := by
  rcases toUpper_cases c with ⟨same, _⟩ | ⟨lower, upper, shifted⟩
  · rw [same, same]
  · rcases toUpper_cases c.toUpper with ⟨same, _⟩ | ⟨again, _, _⟩
    · exact same
    · omega

theorem isBlank_of_isLabelChar {c : Char} (h : isLabelChar c = true) : Text.isBlank c = false := by
  rw [isLabelChar_iff, isAlpha_iff] at h
  rw [Bool.eq_false_iff]
  intro blank
  simp only [Text.isBlank, Text.blankRanges, List.any_cons, List.any_nil, Bool.or_false,
    Bool.or_eq_true, Bool.and_eq_true, decide_eq_true_eq] at blank
  omega

/-- The grammar of labels. -/
theorem defect?_eq_none_iff (label : List Char) :
    defect? label = none ↔
      label.length ≤ maxLength ∧ (label.head?.map Char.isAlpha = some true) ∧
        ∀ c ∈ label, isLabelChar c = true := by
  cases label with
  | nil => simp [defect?]
  | cons first rest =>
    simp only [defect?, List.head?_cons, Option.map_some, Option.some.injEq, ← List.all_eq_true]
    by_cases long : maxLength < (first :: rest).length
    · simp only [if_pos long, reduceCtorEq, false_iff, not_and]
      omega
    · rw [if_neg long]
      simp only [Nat.le_of_not_lt long, true_and]
      cases first.isAlpha <;> cases (first :: rest).all isLabelChar <;> decide

/-- A letter, and up to twenty letters, digits and underscores after it. -/
inductive IsLabel : List Char → Prop where
  | mk {first : Char} {rest : List Char} (letter : first.isAlpha = true) (short : rest.length ≤ 20)
      (others : ∀ c ∈ rest, c.isAlphanum = true ∨ c = '_') : IsLabel (first :: rest)

theorem maxLength_lt_iff {first : Char} {rest : List Char} :
    maxLength < (first :: rest).length ↔ ¬ rest.length ≤ 20 := by
  rw [maxLength, List.length_cons]
  omega

theorem defect?_eq_none_iff_isLabel {label : List Char} : defect? label = none ↔ IsLabel label := by
  have others (c : Char) : isLabelChar c = true ↔ c.isAlphanum = true ∨ c = '_' := by
    rw [isLabelChar, Bool.or_eq_true, decide_eq_true_eq]
  rw [defect?_eq_none_iff]
  constructor
  · rintro ⟨short, letter, characters⟩
    cases label with
    | nil => cases letter
    | cons first rest =>
      have few : rest.length ≤ 20 := by
        rw [maxLength, List.length_cons] at short
        omega
      refine .mk (by simpa using letter) few fun c member => ?_
      exact (others c).1 (characters c (List.mem_cons_of_mem _ member))
  · rintro ⟨letter, short, characters⟩
    refine ⟨Nat.succ_le_succ short, by simpa using letter, fun c member => ?_⟩
    rcases List.mem_cons.1 member with rfl | later
    · rw [isLabelChar_iff]
      exact Or.inl letter
    · exact (others c).2 (characters c later)

/-- The first rule that a text breaks as a label: its length, its first character, or one behind it. -/
inductive FirstDefect : List Char → Defect → Prop where
  | length {label : List Char} (out : label = [] ∨ 21 < label.length) : FirstDefect label .length
  | firstCharacter {first : Char} {rest : List Char} (short : rest.length ≤ 20)
      (other : first.isAlpha = false) : FirstDefect (first :: rest) .firstCharacter
  | character {first c : Char} {rest : List Char} (short : rest.length ≤ 20)
      (letter : first.isAlpha = true) (inside : c ∈ rest) (other : ¬ (c.isAlphanum = true ∨ c = '_')) :
      FirstDefect (first :: rest) .character

theorem firstDefect_of_defect? {label : List Char} {d : Defect} (h : defect? label = some d) :
    FirstDefect label d := by
  cases label with
  | nil =>
    cases h
    exact .length (Or.inl rfl)
  | cons first rest =>
    dsimp only [defect?] at h
    split at h
    · rename_i long
      cases h
      exact .length (Or.inr long)
    · rename_i short
      have few : rest.length ≤ 20 := by
        rw [maxLength_lt_iff] at short
        omega
      split at h
      · rename_i other
        cases h
        exact .firstCharacter few (by simpa using other)
      · rename_i letter
        have alpha : first.isAlpha = true := by simpa using letter
        split at h
        · rename_i broken
          cases h
          -- The first character is a letter, so it is another one that breaks the rule.
          obtain ⟨c, member, other⟩ : ∃ c ∈ first :: rest, isLabelChar c = false := by
            simpa only [Bool.not_eq_true', List.all_eq_false, Bool.not_eq_true] using broken
          rcases List.mem_cons.1 member with rfl | inside
          · rw [(isLabelChar_iff c).2 (Or.inl alpha)] at other
            cases other
          · exact .character few alpha inside (by simpa [isLabelChar] using other)
        · cases h

theorem defect?_eq_some_iff {label : List Char} {d : Defect} :
    defect? label = some d ↔ FirstDefect label d := by
  refine ⟨firstDefect_of_defect?, fun first => ?_⟩
  cases first with
  | length out =>
    rcases out with rfl | long
    · rfl
    · cases label with
      | nil => rfl
      | cons c rest =>
        have out : maxLength < (c :: rest).length := long
        rw [defect?, if_pos out]
  | firstCharacter short other =>
    rw [defect?, if_neg fun long => maxLength_lt_iff.1 long short, if_pos (by rw [other]; rfl)]
  | @character first c rest short letter inside other =>
    have broken : (first :: rest).all isLabelChar = false := by
      refine List.all_eq_false.2 ⟨_, List.mem_cons_of_mem _ inside, ?_⟩
      simpa [isLabelChar] using other
    rw [defect?, if_neg fun long => maxLength_lt_iff.1 long short, if_neg (by rw [letter]; simp), broken]
    rfl

theorem normalize_eq_ok_iff {text key : String} :
    normalize text = .ok key ↔
      defect? (Text.trim text.toList) = none ∧
        key = String.ofList ((Text.trim text.toList).map Char.toUpper) := by
  dsimp only [normalize]
  cases defect? (Text.trim text.toList) with
  | none => simp [eq_comm]
  | some defect => simp

/-- A text in upper case breaks the same rule. -/
theorem defect?_upper (label : List Char) : defect? (label.map Char.toUpper) = defect? label := by
  cases label with
  | nil => rfl
  | cons first rest =>
    have each : ((first :: rest).map Char.toUpper).all isLabelChar =
        (first :: rest).all isLabelChar := by
      have same : isLabelChar ∘ Char.toUpper = isLabelChar := funext isLabelChar_toUpper
      rw [List.all_map, same]
    have length : ((first :: rest).map Char.toUpper).length = (first :: rest).length :=
      List.length_map _
    rw [List.map_cons] at each length ⊢
    simp only [defect?, each, length, isAlpha_toUpper]

/-- A normal form is its own normal form. -/
theorem normalize_of_normalize {text key : String} (h : normalize text = .ok key) :
    normalize key = .ok key := by
  obtain ⟨sound, rfl⟩ := normalize_eq_ok_iff.1 h
  have upper : defect? ((Text.trim text.toList).map Char.toUpper) = none := by
    rw [defect?_upper]
    exact sound
  have no_blank : ∀ c ∈ (Text.trim text.toList).map Char.toUpper, Text.isBlank c = false :=
    fun c member => isBlank_of_isLabelChar (((defect?_eq_none_iff _).1 upper).2.2 c member)
  rw [normalize_eq_ok_iff, String.toList_ofList, Text.trim_of_no_blank no_blank]
  refine ⟨upper, ?_⟩
  rw [List.map_map]
  congr 1
  exact List.map_congr_left fun c _ => (toUpper_toUpper c).symm

theorem IsLabel.filled {label : List Char} (valid : IsLabel label) : label ≠ [] := by
  cases valid
  exact List.cons_ne_nil _ _

theorem IsLabel.visible {label : List Char} (valid : IsLabel label) :
    ∀ c ∈ label, Text.isBlank c = false := by
  have sound := (defect?_eq_none_iff label).1 (defect?_eq_none_iff_isLabel.2 valid)
  exact fun c inside => isBlank_of_isLabelChar (sound.2.2 c inside)

/-- A normal form is a label in capitals. -/
theorem isLabel_of_normalize_self {key : String} (normal : normalize key = .ok key) :
    IsLabel key.toList ∧ key.toList.map Char.toUpper = key.toList := by
  obtain ⟨sound, capitals⟩ := normalize_eq_ok_iff.1 normal
  rw [← String.toList_inj, String.toList_ofList] at capitals
  rw [← defect?_upper, ← capitals, defect?_eq_none_iff_isLabel] at sound
  refine ⟨sound, ?_⟩
  rw [Text.trim_of_no_blank sound.visible] at capitals
  exact capitals.symm

/-- A text without blanks is refused for its own first defect. -/
theorem normalize_ofList {label : List Char} (visible : ∀ c ∈ label, Text.isBlank c = false) :
    normalize (String.ofList label) = match defect? label with
      | some defect => .error ⟨String.ofList label, defect⟩
      | none => .ok (String.ofList (label.map Char.toUpper)) := by
  cases defect : defect? label with
  | none => simp only [normalize, String.toList_ofList, Text.trim_of_no_blank visible, defect]
  | some d => simp only [normalize, String.toList_ofList, Text.trim_of_no_blank visible, defect]

end Label

end SicXe
