import SicXe.Proofs.Operand.Constants
import SicXe.Proofs.Text.Numeral

/-!
# Trees of operands

An operand that is no quoted constant is a tree of at most two terms (`Tree`): labels and decimal
integers, between an addressing mark and an index suffix. A tree has a text and a meaning, and neither
knows of the other. What a scan of the text finds is what the tree has: its one operator (`joints_base`),
its suffix (`indexBase?_text`) and its form (`classify_text`).
-/
namespace SicXe.Operand

open Text (IsNumeral SpellsInteger number)

/-! ### Trees and their texts -/

/-- A label as it is written. -/
structure Name where
  text : List Char
  valid : Label.defect? text = none

/-- The digits of a decimal integer. -/
structure Digits where
  text : List Char
  numeral : IsNumeral 10 text

/-- A term without a sign. -/
inductive Atom where
  | name (name : Name)
  | digits (digits : Digits)

/-- The first term. An integer may have a sign there. -/
inductive Lead where
  | atom (atom : Atom)
  | signed (sign : Sign) (digits : Digits)

/-- The marks of addressing. -/
inductive Mark where
  | immediate | indirect
  deriving DecidableEq

/-- The letter of the index suffix, in either case. -/
inductive IndexLetter where
  | capital | small

structure Tree where
  mark : Option Mark
  left : Lead
  right : Option (Sign × Atom)
  suffix : Option IndexLetter

def Sign.char : Sign → Char
  | plus => '+'
  | minus => '-'

def Atom.text : Atom → List Char
  | name n => n.text
  | digits d => d.text

def Lead.text : Lead → List Char
  | atom a => a.text
  | signed sign d => sign.char :: d.text

def Mark.char : Mark → Char
  | immediate => '#'
  | indirect => '@'

def IndexLetter.char : IndexLetter → Char
  | capital => 'X'
  | small => 'x'

/-- A term behind the mark that it may have. -/
def marked (mark : Option Mark) (text : List Char) : List Char :=
  match mark with
  | none => text
  | some m => m.char :: text

namespace Tree

/-- The text of a tree without its index suffix. -/
def base (t : Tree) : List Char :=
  marked t.mark t.left.text ++
    match t.right with
    | none => []
    | some (sign, right) => sign.char :: right.text

def text (t : Tree) : List Char :=
  t.base ++
    match t.suffix with
    | none => []
    | some letter => [',', letter.char]

theorem base_of_single {t : Tree} (single : t.right = none) : t.base = marked t.mark t.left.text := by
  rw [base, single, List.append_nil]

theorem base_of_joined {t : Tree} {sign : Sign} {right : Atom} (joined : t.right = some (sign, right)) :
    t.base = marked t.mark t.left.text ++ sign.char :: right.text := by
  rw [base, joined]

theorem text_of_plain {t : Tree} (plain : t.suffix = none) : t.text = t.base := by
  rw [text, plain, List.append_nil]

theorem text_of_indexed {t : Tree} {letter : IndexLetter} (indexed : t.suffix = some letter) :
    t.text = t.base ++ [',', letter.char] := by
  rw [text, indexed]

/-- The mode that a tree is evaluated in. A suffix counts more than an operator, an operator more than a
mark. -/
def mode (t : Tree) : Mode :=
  if t.suffix.isSome then .indexed
  else if t.right.isSome then .arithmetic
  else match t.mark, t.left with
    | some .immediate, _ => .immediate
    | some .indirect, _ => .indirect
    | none, .atom (.name _) => .simple
    | none, _ => .literal .decimal

end Tree

/-! ### What trees mean -/

/-- Why a tree has no value. -/
inductive Failure where
  | undefined (name : Name)
  | outOfRange

/-- An exact number as a value, if it is one. -/
def inRange (value : Int) (relocatable : Bool) : Except Failure Quantity :=
  if Word.fits value then .ok ⟨value, relocatable⟩ else .error .outOfRange

variable (symbols : SymbolTable)

/-- A label means its symbol, which is stored in capitals. -/
def Name.meaning (n : Name) : Except Failure Quantity :=
  match symbols.get? (String.ofList (n.text.map Char.toUpper)) with
  | some s => .ok ⟨s.value, s.relocatable⟩
  | none => .error (.undefined n)

def Atom.meaning : Atom → Except Failure Quantity
  | name n => n.meaning symbols
  | digits d => inRange (number 10 d.text) false

def Lead.meaning : Lead → Except Failure Quantity
  | atom a => a.meaning symbols
  | signed sign d => inRange (sign.apply 0 (number 10 d.text)) false

/-- The meaning of a tree: its only term, or the exact sum or difference of two. Of two terms that fail
the left one counts. -/
def Tree.meaning (t : Tree) : Except Failure Quantity :=
  match t.left.meaning symbols, t.right with
  | .error failure, _ => .error failure
  | .ok left, none => .ok left
  | .ok left, some (sign, atom) =>
    match atom.meaning symbols with
    | .error failure => .error failure
    | .ok right =>
      inRange (sign.apply left.value right.value) (left.relocatable || right.relocatable)

/-! ### Characters of trees -/

theorem ne_of_isLabelChar {c d : Char} (label : Label.isLabelChar c = true)
    (other : Label.isLabelChar d = false) : c ≠ d := by
  rintro rfl
  rw [label] at other
  cases other

theorem ofChar?_of_isLabelChar {c : Char} (label : Label.isLabelChar c = true) :
    Sign.ofChar? c = none :=
  Sign.ofChar?_eq_none (ne_of_isLabelChar label rfl) (ne_of_isLabelChar label rfl)

theorem isAddressingMark_of_isLabelChar {c : Char} (label : Label.isLabelChar c = true) :
    isAddressingMark c = false := by
  simp only [isAddressingMark, Bool.or_eq_false_iff, decide_eq_false_iff_not]
  exact ⟨ne_of_isLabelChar label rfl, ne_of_isLabelChar label rfl⟩

theorem Sign.ofChar?_char (sign : Sign) : ofChar? sign.char = some sign := by
  cases sign <;> rfl

theorem Atom.isLabelChar (a : Atom) : ∀ c ∈ a.text, Label.isLabelChar c = true := by
  intro c member
  cases a with
  | name n => exact ((Label.defect?_eq_none_iff _).1 n.valid).2.2 c member
  | digits d =>
    have digit := Text.isDigit_ten_iff.1 (d.numeral.digits c member)
    rw [Label.isLabelChar, Char.isAlphanum, digit, Bool.or_true, Bool.true_or]

theorem Atom.filled (a : Atom) : a.text ≠ [] := by
  cases a with
  | name n =>
    rintro (empty : n.text = [])
    have valid := n.valid
    rw [empty] at valid
    cases valid
  | digits d => exact d.numeral.filled

/-- A first term starts with a sign or a character of labels; after that there are only these. -/
theorem Lead.parts (left : Lead) : ∃ first rest, left.text = first :: rest ∧
    (first = '+' ∨ first = '-' ∨ Label.isLabelChar first = true) ∧
    ∀ c ∈ rest, Label.isLabelChar c = true := by
  cases left with
  | atom a =>
    obtain ⟨first, rest, parts⟩ := List.exists_cons_of_ne_nil a.filled
    have labels := a.isLabelChar
    rw [parts, List.forall_mem_cons] at labels
    exact ⟨first, rest, parts, Or.inr (Or.inr labels.1), labels.2⟩
  | signed sign d =>
    refine ⟨sign.char, d.text, rfl, ?_, (Atom.digits d).isLabelChar⟩
    cases sign
    · exact Or.inl rfl
    · exact Or.inr (Or.inl rfl)

/-- The characters of a tree before its suffix. -/
def IsTreeChar (c : Char) : Prop := c ∈ ['#', '@', '+', '-'] ∨ Label.isLabelChar c = true

theorem Lead.isTreeChar (left : Lead) : ∀ c ∈ left.text, IsTreeChar c := by
  obtain ⟨first, rest, parts, start, labels⟩ := left.parts
  rw [parts, List.forall_mem_cons]
  refine ⟨?_, fun c member => Or.inr (labels c member)⟩
  rcases start with rfl | rfl | label
  · exact Or.inl (by decide)
  · exact Or.inl (by decide)
  · exact Or.inr label

theorem Tree.isTreeChar (t : Tree) : ∀ c ∈ t.base, IsTreeChar c := by
  have front : ∀ c ∈ marked t.mark t.left.text, IsTreeChar c := by
    cases t.mark with
    | none => exact t.left.isTreeChar
    | some m =>
      rw [marked, List.forall_mem_cons]
      exact ⟨Or.inl (by cases m <;> decide), t.left.isTreeChar⟩
  intro c member
  rcases List.mem_append.1 member with before | after
  · exact front c before
  · split at after
    · cases after
    · rename_i sign right _
      rcases List.mem_cons.1 after with rfl | inside
      · exact Or.inl (by cases sign <;> decide)
      · exact Or.inr (right.isLabelChar c inside)

/-- No comma, quote or equals sign is in a tree before its suffix. -/
theorem Tree.not_mem_base (t : Tree) {c : Char} (other : ¬ IsTreeChar c) : c ∉ t.base :=
  fun member => other (t.isTreeChar c member)

theorem isBlank_of_isTreeChar {c : Char} (inner : IsTreeChar c) : Text.isBlank c = false := by
  rcases inner with mark | label
  · simp only [List.mem_cons, List.not_mem_nil, or_false] at mark
    rcases mark with rfl | rfl | rfl | rfl <;> decide
  · exact Label.isBlank_of_isLabelChar label

theorem Tree.trim_base (t : Tree) : Text.trim t.base = t.base :=
  Text.trim_of_no_blank fun c member => isBlank_of_isTreeChar (t.isTreeChar c member)

theorem Tree.trim_text (t : Tree) : Text.trim t.text = t.text := by
  refine Text.trim_of_no_blank fun c member => ?_
  rcases List.mem_append.1 member with before | after
  · exact isBlank_of_isTreeChar (t.isTreeChar c before)
  · split at after
    · cases after
    · rename_i letter _
      rcases List.mem_pair.1 after with rfl | rfl
      · decide
      · cases letter <;> decide

/-! ### Scans of trees -/

/-- Past the lead, there is no joint among the characters of labels. -/
theorem jointsFrom_labels {labels : List Char} (each : ∀ c ∈ labels, Label.isLabelChar c = true)
    (before rest : List Char) : jointsFrom false false before (labels ++ rest) =
      jointsFrom false false (labels.reverse ++ before) rest := by
  induction labels generalizing before with
  | nil => rfl
  | cons c labels ih =>
    obtain ⟨label, each⟩ := List.forall_mem_cons.1 each
    have unquoted : (c == Literal.quote) = false := beq_false_of_ne (ne_of_isLabelChar label rfl)
    simp only [List.cons_append, jointsFrom, ofChar?_of_isLabelChar label, unquoted, bne_self_eq_false,
      Bool.false_and, Bool.false_eq_true, if_false, ih each, List.reverse_cons, List.append_assoc,
      List.nil_append]

theorem jointsFrom_lead (left : Lead) (before rest : List Char) :
    jointsFrom false true before (left.text ++ rest) =
      jointsFrom false false (left.text.reverse ++ before) rest := by
  obtain ⟨first, labels, parts, start, each⟩ := left.parts
  have unmarked : isAddressingMark first = false := by
    rcases start with rfl | rfl | label
    · rfl
    · rfl
    · exact isAddressingMark_of_isLabelChar label
  have unquoted : (first == Literal.quote) = false := by
    rcases start with rfl | rfl | label
    · rfl
    · rfl
    · exact beq_false_of_ne (ne_of_isLabelChar label rfl)
  -- A sign at the lead is no operator, and no other character is.
  have lead : jointsFrom false true before (first :: (labels ++ rest)) =
      jointsFrom false false (first :: before) (labels ++ rest) := by
    rw [jointsFrom]
    simp only [unmarked, unquoted, Bool.and_false, Bool.false_eq_true, if_false, Bool.or_true, if_true,
      bne_self_eq_false]
    split <;> rfl
  rw [parts, List.cons_append, lead, jointsFrom_labels each, List.reverse_cons, List.append_assoc,
    List.singleton_append]

/-- The scan of a term behind its mark. -/
theorem joints_marked (mark : Option Mark) (left : Lead) (rest : List Char) :
    joints (marked mark left.text ++ rest) =
      jointsFrom false false (marked mark left.text).reverse rest := by
  unfold joints
  cases mark with
  | none => rw [marked, jointsFrom_lead, List.append_nil]
  | some m =>
    have skipped : jointsFrom false true [] (m.char :: (left.text ++ rest)) =
        jointsFrom false true [m.char] (left.text ++ rest) := by
      cases m <;> rfl
    rw [marked, List.cons_append, skipped, jointsFrom_lead, List.reverse_cons]

theorem joints_single (mark : Option Mark) (left : Lead) : joints (marked mark left.text) = [] := by
  have scanned := joints_marked mark left []
  rw [List.append_nil] at scanned
  rw [scanned, jointsFrom]

theorem joints_joined (mark : Option Mark) (left : Lead) (sign : Sign) (right : Atom) :
    joints (marked mark left.text ++ sign.char :: right.text) =
      [⟨marked mark left.text, sign, right.text⟩] := by
  have unquoted : (sign.char == Literal.quote) = false := by
    cases sign <;> rfl
  have last (before : List Char) : jointsFrom false false before right.text = [] := by
    have scanned := jointsFrom_labels right.isLabelChar before []
    rw [List.append_nil] at scanned
    rw [scanned, jointsFrom]
  rw [joints_marked, jointsFrom]
  simp only [Sign.ofChar?_char, unquoted, last, Bool.false_and, Bool.or_self, Bool.false_eq_true,
    if_false, bne_self_eq_false, List.reverse_reverse]

/-- A tree is joined at its operator. -/
theorem joints_base (t : Tree) : joints t.base =
    (t.right.map fun right => ⟨marked t.mark t.left.text, right.1, right.2.text⟩).toList := by
  cases parts : t.right with
  | none => rw [Tree.base_of_single parts, joints_single]; rfl
  | some right => rw [Tree.base_of_joined parts, joints_joined]; rfl

theorem indexBase?_of_no_comma {text : List Char} (plain : ',' ∉ text) : indexBase? text = none := by
  unfold indexBase?
  split
  · rename_i parts
    have member : ',' ∈ text.reverse := by
      rw [parts]
      simp
    exact absurd (List.mem_reverse.1 member) plain
  · rfl

theorem indexBase?_suffix (text : List Char) (letter : IndexLetter) :
    indexBase? (text ++ [',', letter.char]) = some text := by
  have ends : (text ++ [',', letter.char]).reverse = letter.char :: ',' :: text.reverse := by
    rw [List.reverse_append]
    rfl
  have index : letter.char.toUpper = 'X' := by
    cases letter <;> rfl
  unfold indexBase?
  rw [ends]
  simp only [index, if_true, List.reverse_reverse]

/-- The suffix of a tree is found behind the rest of its text. -/
theorem indexBase?_text (t : Tree) : indexBase? t.text = t.suffix.map fun _ => t.base := by
  cases parts : t.suffix with
  | none =>
    rw [Tree.text_of_plain parts]
    exact indexBase?_of_no_comma (t.not_mem_base (by unfold IsTreeChar; decide))
  | some letter =>
    rw [Tree.text_of_indexed parts, indexBase?_suffix]
    rfl

theorem isConstantForm_of_no_quote {text : List Char} (trimmed : Text.trim text = text)
    (unpooled : '=' ∉ text) (unquoted : Literal.quote ∉ text) : Literal.isConstantForm text = false := by
  cases text with
  | nil => rfl
  | cons first rest =>
    have other : first ≠ '=' := fun same => unpooled (by simp [same])
    rw [isConstantForm_of_cons trimmed other, Bool.and_eq_false_iff, decide_eq_false_iff_not,
      decide_eq_false_iff_not]
    exact Or.inr fun quoted => unquoted (List.mem_cons_of_mem _ (List.mem_of_head? quoted.1))

/-! ### Forms of trees -/

/-- The integer that a term is, if it is one. -/
def Atom.integer? : Atom → Option Int
  | name _ => none
  | digits d => some (number 10 d.text)

def Lead.integer? : Lead → Option Int
  | atom a => a.integer?
  | signed sign d => some (sign.apply 0 (number 10 d.text))

theorem Lead.name_of_no_integer {left : Lead} (none_there : left.integer? = none) :
    ∃ n, left = .atom (.name n) := by
  cases left with
  | atom a =>
    cases a with
    | name n => exact ⟨n, rfl⟩
    | digits d => cases none_there
  | signed sign d => cases none_there

theorem Name.integer?_text (n : Name) : Text.integer? n.text = none := by
  rw [Option.eq_none_iff_forall_ne_some]
  intro value read
  obtain ⟨first, rest, parts, start, _⟩ := Text.integer?_parts read
  have letter := ((Label.defect?_eq_none_iff _).1 n.valid).2.1
  rw [parts, List.head?_cons, Option.map_some, Option.some.injEq, Label.isAlpha_iff] at letter
  rcases start with rfl | rfl | digit
  · revert letter
    decide
  · revert letter
    decide
  · rw [Char.isDigit, Bool.and_eq_true, decide_eq_true_eq, decide_eq_true_eq] at digit
    obtain ⟨_, high⟩ : 48 ≤ first.toNat ∧ first.toNat ≤ 57 := digit
    omega

theorem Atom.integer?_text (a : Atom) : Text.integer? a.text = a.integer? := by
  cases a with
  | name n => exact n.integer?_text
  | digits d => exact Text.integer?_eq_some_iff.2 (.unsigned d.numeral)

theorem Lead.integer?_text (left : Lead) : Text.integer? left.text = left.integer? := by
  cases left with
  | atom a => exact a.integer?_text
  | signed sign d =>
    rw [text, integer?, Text.integer?_eq_some_iff]
    cases sign with
    | plus =>
      rw [Sign.apply, Int.zero_add]
      exact .plus d.numeral
    | minus =>
      rw [Sign.apply, Int.zero_sub]
      exact .minus d.numeral

theorem isInteger_text (left : Lead) : Text.isInteger left.text = left.integer?.isSome := by
  rw [Text.isInteger, left.integer?_text]

theorem Lead.not_mark (left : Lead) {c : Char} (mark : isAddressingMark c = true) :
    left.text.head? ≠ some c := by
  obtain ⟨first, rest, parts, start, _⟩ := left.parts
  rw [parts, List.head?_cons, ne_eq, Option.some.injEq]
  rintro rfl
  rcases start with rfl | rfl | label
  · cases mark
  · cases mark
  · rw [isAddressingMark_of_isLabelChar label] at mark
    cases mark

theorem Lead.trim_text (left : Lead) : Text.trim left.text = left.text :=
  Text.trim_of_no_blank fun c member => isBlank_of_isTreeChar (left.isTreeChar c member)

theorem Lead.not_mem_text (left : Lead) {c : Char} (other : ¬ IsTreeChar c) : c ∉ left.text :=
  fun member => other (left.isTreeChar c member)

theorem Lead.isConstantForm_text (left : Lead) : Literal.isConstantForm left.text = false :=
  isConstantForm_of_no_quote left.trim_text (left.not_mem_text (by unfold IsTreeChar; decide))
    (left.not_mem_text (by unfold IsTreeChar; decide))

/-- The classifier sees the form of a tree. -/
theorem classify_text (t : Tree) : classify t.text = t.mode := by
  unfold classify Tree.mode
  rw [t.trim_text]
  simp only [indexBase?_text, Option.isSome_map]
  cases indexed : t.suffix with
  | some letter => rfl
  | none =>
    rw [Tree.text_of_plain indexed, joints_base]
    cases joined : t.right with
    | some right => rfl
    | none =>
      rw [Tree.base_of_single joined]
      cases t.mark with
      | some m => cases m <;> rfl
      | none =>
        simp only [marked, t.left.not_mark (c := '#') rfl, t.left.not_mark (c := '@') rfl,
          t.left.isConstantForm_text, isInteger_text]
        cases t.left with
        | atom a => cases a <;> rfl
        | signed sign d => rfl

end SicXe.Operand
