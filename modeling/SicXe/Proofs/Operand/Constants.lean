import SicXe.Proofs.Literal.Form
import SicXe.Proofs.Operand.Case

/-!
# Constants in an operand column

Three scanners look at a constant: the reader of literals takes the apostrophes at its ends, the joints of
an operand are looked for outside pairs of apostrophes, and a form of its own announces a constant. They
agree on a constant unless an apostrophe inside it leaves a sign outside (`Joined`): with the joints
looked for first, such an operand is an expression of two terms, one of which cannot be read
(`resolve_of_parse`). A constant that is not joined has the value and the bytes that it reads as
(`resolve_of_unpooled_parse`, `resolve_of_pooled_parse`).
-/
namespace SicXe

namespace Text

theorem mem_dropWhile {drop : Char → Bool} {text : List Char} {c : Char} (member : c ∈ text)
    (kept : drop c = false) : c ∈ text.dropWhile drop := by
  rw [← List.takeWhile_append_dropWhile (p := drop) (l := text), List.mem_append] at member
  rcases member with dropped | left
  · rw [List.mem_takeWhile_imp dropped] at kept
    cases kept
  · exact left

end Text

namespace Operand

/-! ### Where an operand is joined -/

/-- A plus or minus sign stands behind an even number of apostrophes and is not the first character. -/
def Joined (text : List Char) : Prop :=
  ∃ before sign after, text = before ++ sign :: after ∧ before ≠ [] ∧ (sign = '+' ∨ sign = '-') ∧
    before.count Literal.quote % 2 = 0

theorem ofChar?_isSome_iff (c : Char) : (∃ sign, Sign.ofChar? c = some sign) ↔ c = '+' ∨ c = '-' := by
  constructor
  · rintro ⟨sign, known⟩
    by_contra other
    rw [not_or] at other
    rw [Sign.ofChar?_eq_none other.1 other.2] at known
    cases known
  · rintro (rfl | rfl)
    · exact ⟨.plus, rfl⟩
    · exact ⟨.minus, rfl⟩

/-- Past the lead, a text is joined at its signs that are not quoted. -/
theorem mem_jointsFrom {quoted : Bool} {before text : List Char} {joint : Joint} :
    joint ∈ jointsFrom quoted false before text ↔
      ∃ front c rest, text = front ++ c :: rest ∧ Sign.ofChar? c = some joint.sign ∧
        joint.left = before.reverse ++ front ∧ joint.right = rest ∧
        (front.count Literal.quote % 2 = 1 ↔ quoted = true) := by
  induction text generalizing quoted before with
  | nil => simp [jointsFrom]
  | cons c rest ih =>
    have parity (front : List Char) :
        ((c :: front).count Literal.quote % 2 = 1 ↔ quoted = true) ↔
          (front.count Literal.quote % 2 = 1 ↔ (quoted != (c == Literal.quote)) = true) := by
      rw [List.count_cons]
      cases quoted <;> cases c == Literal.quote <;> simp <;> omega
    have later : joint ∈ jointsFrom (quoted != (c == Literal.quote)) false (c :: before) rest ↔
        ∃ front d after, rest = front ++ d :: after ∧ Sign.ofChar? d = some joint.sign ∧
          joint.left = before.reverse ++ c :: front ∧ joint.right = after ∧
          ((c :: front).count Literal.quote % 2 = 1 ↔ quoted = true) := by
      rw [ih]
      simp only [parity, List.reverse_cons, List.append_assoc, List.singleton_append]
    have step : joint ∈ jointsFrom quoted false before (c :: rest) ↔
        (Sign.ofChar? c = some joint.sign ∧ quoted = false ∧ joint.left = before.reverse ∧
          joint.right = rest) ∨
        joint ∈ jointsFrom (quoted != (c == Literal.quote)) false (c :: before) rest := by
      obtain ⟨left, sign, right⟩ := joint
      simp only [jointsFrom, Bool.false_and, Bool.false_eq_true, if_false]
      cases known : Sign.ofChar? c with
      | none => simp
      | some first =>
        cases quoted with
        | true => simp
        | false =>
          simp only [Bool.or_self, Bool.false_eq_true, if_false, List.mem_cons, Joint.mk.injEq,
            Option.some.injEq, true_and]
          tauto
    rw [step, later]
    constructor
    · rintro (⟨known, outside, left, right⟩ | ⟨front, d, after, rfl, others⟩)
      · exact ⟨[], c, rest, rfl, known, by rw [List.append_nil, left], right, by simp [outside]⟩
      · exact ⟨c :: front, d, after, rfl, others⟩
    · rintro ⟨front, d, after, parts, known, left, right, odd⟩
      cases front with
      | nil =>
        cases parts
        refine Or.inl ⟨known, ?_, by rw [left, List.append_nil], right⟩
        simpa using odd
      | cons first front =>
        cases parts
        exact Or.inr ⟨front, d, after, rfl, known, left, right, odd⟩

/-- The joints of a text that starts with no addressing mark. -/
theorem mem_joints {text : List Char} {joint : Joint}
    (unmarked : ∀ c, text.head? = some c → isAddressingMark c = false) :
    joint ∈ joints text ↔ ∃ c, text = joint.left ++ c :: joint.right ∧
      Sign.ofChar? c = some joint.sign ∧ joint.left ≠ [] ∧
      joint.left.count Literal.quote % 2 = 0 := by
  cases text with
  | nil => simp [joints, jointsFrom]
  | cons first rest =>
    have plain := unmarked first rfl
    -- At the lead nothing is joined.
    have lead : joints (first :: rest) =
        jointsFrom (false != (first == Literal.quote)) false [first] rest := by
      unfold joints
      rw [jointsFrom]
      simp only [plain, Bool.and_false, Bool.false_eq_true, if_false, Bool.or_true, if_true]
      split <;> rfl
    have parity (front : List Char) :
        (front.count Literal.quote % 2 = 1 ↔ (false != (first == Literal.quote)) = true) ↔
          (first :: front).count Literal.quote % 2 = 0 := by
      rw [List.count_cons]
      cases first == Literal.quote
      · simp
      · simp
        omega
    rw [lead, mem_jointsFrom]
    constructor
    · rintro ⟨front, c, after, rfl, known, left, rfl, even⟩
      rw [List.reverse_singleton, List.singleton_append] at left
      rw [left]
      exact ⟨c, rfl, known, List.cons_ne_nil _ _, (parity front).1 even⟩
    · rintro ⟨c, parts, known, filled, even⟩
      obtain ⟨start, front, left⟩ := List.exists_cons_of_ne_nil filled
      rw [left] at parts even
      cases parts
      exact ⟨front, c, joint.right, rfl, known, left, rfl, (parity front).2 even⟩

theorem joints_eq_nil_iff {text : List Char}
    (unmarked : ∀ c, text.head? = some c → isAddressingMark c = false) :
    joints text = [] ↔ ¬ Joined text := by
  rw [List.eq_nil_iff_forall_not_mem]
  constructor
  · rintro none_there ⟨before, sign, after, parts, filled, mark, even⟩
    obtain ⟨kind, known⟩ := (ofChar?_isSome_iff sign).2 mark
    exact none_there ⟨before, kind, after⟩
      ((mem_joints unmarked).2 ⟨sign, parts, known, filled, even⟩)
  · intro whole joint member
    obtain ⟨c, parts, known, filled, even⟩ := (mem_joints unmarked).1 member
    exact whole ⟨joint.left, c, joint.right, parts, filled, (ofChar?_isSome_iff c).1 ⟨_, known⟩, even⟩

/-! ### Modes of constants -/

theorem indexBase?_eq_none {text : List Char} {last : Char} (ends : text.getLast? = some last)
    (other : last.toUpper ≠ 'X') : indexBase? text = none := by
  rw [← List.head?_reverse] at ends
  obtain ⟨rest, parts⟩ := List.head?_eq_some_iff.1 ends
  unfold indexBase?
  rw [parts]
  split
  · rename_i same
    cases same
    rw [if_neg other]
  · rfl

/-- Neither a mark of addressing nor, in any case, the last character of an index suffix. -/
def Plain (c : Char) : Prop := isAddressingMark c = false ∧ c.toUpper ≠ 'X'

theorem plain_of_isDigit {c : Char} (digit : c.isDigit = true) : Plain c := by
  rw [Char.isDigit, Bool.and_eq_true, decide_eq_true_eq, decide_eq_true_eq] at digit
  obtain ⟨low, high⟩ : 48 ≤ c.toNat ∧ c.toNat ≤ 57 := digit
  have number {d : Char} (same : c = d) : 48 ≤ d.toNat ∧ d.toNat ≤ 57 := same ▸ ⟨low, high⟩
  constructor
  · simp only [isAddressingMark, Bool.or_eq_false_iff, decide_eq_false_iff_not]
    exact ⟨fun same => absurd (number same) (by decide), fun same => absurd (number same) (by decide)⟩
  · rcases Label.toUpper_cases c with ⟨same, _⟩ | ⟨lower, _, _⟩
    · rw [same]
      exact fun same => absurd (number same) (by decide)
    · omega

theorem plain_of_integer {c : Char} (h : c = '+' ∨ c = '-' ∨ c.isDigit = true) : Plain c := by
  rcases h with rfl | rfl | digit
  · exact ⟨rfl, by decide⟩
  · exact ⟨rfl, by decide⟩
  · exact plain_of_isDigit digit

theorem isAddressingMark_of_upper {marker : Char} {number : Bool}
    (upper : marker.toUpper = if number then 'X' else 'C') : isAddressingMark marker = false := by
  rw [← isAddressingMark_toUpper, upper]
  cases number <;> rfl

section Forms

variable {text : List Char} {kind : Literal.Kind} {bytes : List UInt8}

/-- A constant does not start with an addressing mark. -/
theorem unmarked_of_form (form : Literal.Form text kind bytes) :
    ∀ c, text.head? = some c → isAddressingMark c = false := by
  intro c first
  cases form with
  | decimal unpooled read =>
    obtain ⟨read, _⟩ := Option.filter_eq_some_iff.1 read
    exact (plain_of_integer (Text.integer?_chars read c (List.mem_of_head? first))).1
  | quoted pooled number upper filled read =>
    cases pooled with
    | true =>
      cases first
      rfl
    | false =>
      cases first
      exact isAddressingMark_of_upper upper

theorem indexBase?_of_form (form : Literal.Form text kind bytes) : indexBase? text = none := by
  cases form with
  | decimal unpooled read =>
    obtain ⟨read, _⟩ := Option.filter_eq_some_iff.1 read
    have filled : text ≠ [] := by
      rintro rfl
      cases read
    have last := List.getLast?_eq_getLast_of_ne_nil filled
    exact indexBase?_eq_none last
      (plain_of_integer (Text.integer?_chars read _ (List.getLast_mem filled))).2
  | quoted pooled number upper filled read =>
    rename_i marker inner
    have regrouped : (if pooled then ['='] else []) ++ marker :: Literal.quote ::
        (inner ++ [Literal.quote]) =
        ((if pooled then ['='] else []) ++ marker :: Literal.quote :: inner) ++ [Literal.quote] := by
      simp
    refine indexBase?_eq_none ?_ (show Literal.quote.toUpper ≠ 'X' by decide)
    rw [regrouped, List.getLast?_concat]

/-- A decimal integer has no sign but at its start. -/
theorem not_joined_of_integer? {value : Int} (read : Text.integer? text = some value) :
    ¬ Joined text := by
  rintro ⟨before, sign, after, parts, filled, mark, _⟩
  obtain ⟨first, rest, rfl, _, digits⟩ := Text.integer?_parts read
  obtain ⟨start, front, rfl⟩ := List.exists_cons_of_ne_nil filled
  cases parts
  have digit := digits sign (by simp)
  rcases mark with rfl | rfl <;> cases digit

theorem isConstantForm_of_integer? {value : Int} (read : Text.integer? text = some value)
    (trimmed : Text.trim text = text) (other : text.head? ≠ some '=') :
    Literal.isConstantForm text = false := by
  cases text with
  | nil => cases read
  | cons first rest =>
    have no_equals : first ≠ '=' := fun same => other (by rw [same]; rfl)
    rw [isConstantForm_of_cons trimmed no_equals, Bool.and_eq_false_iff, decide_eq_false_iff_not,
      decide_eq_false_iff_not]
    refine Or.inr fun quoted => ?_
    have sign_or_digit := Text.integer?_chars read Literal.quote
      (List.mem_cons_of_mem _ (List.mem_of_head? quoted.1))
    exact absurd sign_or_digit (by decide)

theorem isConstantForm_of_quoted {pooled number : Bool} {marker : Char} {inner : List Char}
    (upper : marker.toUpper = if number then 'X' else 'C') (trimmed : Text.trim text = text)
    (parts : text = (if pooled then ['='] else []) ++
      marker :: Literal.quote :: (inner ++ [Literal.quote])) :
    Literal.isConstantForm text = true := by
  cases pooled with
  | true =>
    refine Literal.isConstantForm_of_equals ?_
    rw [trimmed, parts]
    rfl
  | false =>
    rw [isConstantForm_of_cons (trimmed.trans parts) (Literal.ne_equals_of_upper upper)]
    cases number <;> simp [upper]

/-- The mode of a constant is its kind, unless it is joined. -/
theorem classify_of_form (form : Literal.Form text kind bytes) (trimmed : Text.trim text = text) :
    (¬ Joined text → classify text = .literal kind) ∧ (Joined text → classify text = .arithmetic) := by
  have unmarked := unmarked_of_form form
  have unindexed := indexBase?_of_form form
  have immediate : text.head? ≠ some '#' := fun first => by cases unmarked _ first
  have indirect : text.head? ≠ some '@' := fun first => by cases unmarked _ first
  unfold classify
  rw [trimmed]
  simp only [unindexed, Option.isSome_none, Bool.false_eq_true, if_false, immediate, indirect]
  constructor
  · intro whole
    rw [(joints_eq_nil_iff unmarked).2 whole]
    cases form with
    | decimal unpooled read =>
      obtain ⟨read, _⟩ := Option.filter_eq_some_iff.1 read
      simp [isConstantForm_of_integer? read trimmed unpooled, Text.isInteger, read]
    | quoted pooled number upper filled read =>
      simp only [isConstantForm_of_quoted upper trimmed rfl, announcedKind_of_quoted _ upper]
      rfl
  · intro joined
    have some_joint : (joints text).isEmpty = false := by
      rw [List.isEmpty_eq_false_iff]
      exact fun nothing => (joints_eq_nil_iff unmarked).1 nothing joined
    rw [some_joint]
    rfl

end Forms

/-! ### Evaluation -/

section Evaluation

variable {text : String} {l : Literal}

theorem modeOf_of_parse (parsed : Literal.parse text = .ok l)
    (whole : ¬ Joined (Text.trim text.toList)) : modeOf text = .literal l.kind :=
  (classify_of_form (Literal.form_of_parse parsed).1 (Text.trim_trim _)).1 whole

/-- A constant that is not of the pool has its own value and bytes. -/
theorem resolve_of_unpooled_parse (parsed : Literal.parse text = .ok l)
    (whole : ¬ Joined (Text.trim text.toList)) (unpooled : l.kind.isPooled = false)
    (symbols : SymbolTable) (pool : LiteralPool) : resolve symbols pool text =
      .ok (⟨String.ofList (Text.trim text.toList), .addressed (.literal l.kind), l.value, false,
        l.bytes⟩, pool) := by
  rw [resolve_of_unpooled (modeOf_of_parse parsed whole) unpooled, resolveConstant,
    Literal.parse_trim, parsed]
  dsimp only
  rw [constantKind_of_unpooled unpooled]
  rfl

/-- A literal of the pool has the bytes it is written with, and its place there as value. -/
theorem resolve_of_pooled_parse (parsed : Literal.parse text = .ok l)
    (whole : ¬ Joined (Text.trim text.toList)) (pooled : l.kind.isPooled = true)
    (symbols : SymbolTable) (pool : LiteralPool) : ∃ stored pool',
      resolve symbols pool text = .ok (⟨String.ofList (Text.trim text.toList),
        .addressed (.literal l.kind), stored.address.getD 0, false, l.bytes⟩, pool') ∧
      pool'.get? l.bytes = some stored := by
  have trimmed : Literal.parse (String.ofList (Text.trim text.toList)) = .ok l := by
    rw [Literal.parse_trim, parsed]
  obtain ⟨stored, pool', registered, bytes, found⟩ := LiteralPool.register_of_parse trimmed pool
  refine ⟨stored, pool', ?_, found⟩
  rw [resolve_of_pooled (modeOf_of_parse parsed whole) pooled, resolvePooled, registered, ← bytes]

/-! ### Joined constants -/

theorem symbol_of_quote (symbols : SymbolTable) {text : List Char} (quoted : Literal.quote ∈ text) :
    symbol symbols text = .error (.undefinedSymbol (String.ofList (Text.trim text))) := by
  have unknown : symbols.lookup (String.ofList (Text.trim text)) = none := by
    unfold SymbolTable.lookup
    split
    · rename_i key normal
      obtain ⟨valid, _⟩ := Label.normalize_eq_ok_iff.1 normal
      rw [String.toList_ofList, Text.trim_trim] at valid
      have label := ((Label.defect?_eq_none_iff _).1 valid).2.2 _ (Text.mem_trim quoted rfl)
      cases label
    · rfl
  simp only [symbol, unknown]

/-- There is no value in a term with an apostrophe. -/
theorem term_of_quote (symbols : SymbolTable) {raw : List Char} (quoted : Literal.quote ∈ raw) :
    ∃ e, term symbols raw = .error e := by
  have inside : Literal.quote ∈ (Text.trim raw).dropWhile isAddressingMark :=
    Text.mem_dropWhile (Text.mem_trim quoted rfl) rfl
  unfold term
  dsimp only
  split
  · exact ⟨_, rfl⟩
  · split
    · rename_i value read
      exact absurd (Text.integer?_chars read _ inside) (by decide)
    · exact ⟨_, symbol_of_quote symbols inside⟩

/-- A constant is joined behind its first apostrophe. -/
theorem quote_mem_left {kind : Literal.Kind} {bytes : List UInt8} {text : List Char}
    (form : Literal.Form text kind bytes) {joint : Joint} (member : joint ∈ joints text) :
    Literal.quote ∈ joint.left := by
  have unmarked := unmarked_of_form form
  obtain ⟨c, parts, known, filled, even⟩ := (mem_joints unmarked).1 member
  have sign := (ofChar?_isSome_iff c).1 ⟨_, known⟩
  cases form with
  | decimal unpooled read =>
    obtain ⟨read, _⟩ := Option.filter_eq_some_iff.1 read
    exact absurd ⟨joint.left, c, joint.right, parts, filled, sign, even⟩ (not_joined_of_integer? read)
  | quoted pooled number upper nonempty read =>
    rename_i marker inner
    have regrouped : ((if pooled then ['='] else []) ++ [marker]) ++ Literal.quote ::
        (inner ++ [Literal.quote]) = joint.left ++ c :: joint.right := by
      rw [← parts, List.append_assoc, List.singleton_append]
    have other : c ≠ Literal.quote := by
      rintro rfl
      rcases sign with same | same <;> cases same
    rcases List.append_eq_append_iff.1 regrouped with ⟨more, left, rest⟩ | ⟨more, front, rest⟩
    · cases more with
      | nil => exact absurd (List.cons.inj rest).1.symm other
      | cons first more =>
        obtain ⟨rfl, _⟩ := List.cons.inj rest
        rw [left]
        simp
    · cases more with
      | nil => exact absurd (List.cons.inj rest).1 other
      | cons first more =>
        -- The sign would be the equals sign or the marker.
        obtain ⟨rfl, _⟩ := List.cons.inj rest
        have start : c ∈ (if pooled then ['='] else []) ++ [marker] := by
          rw [front]
          simp
        have equals_or_marker : c = '=' ∨ c = marker := by
          cases pooled with
          | true => simpa using start
          | false => exact Or.inr (by simpa using start)
        rcases equals_or_marker with rfl | rfl
        · rcases sign with same | same <;> cases same
        · rcases sign with rfl | rfl <;> cases number <;> cases upper

theorem arithmetic_of_quote {kind : Literal.Kind} {bytes : List UInt8} {text : List Char}
    (form : Literal.Form text kind bytes) (symbols : SymbolTable) :
    ∃ e, arithmetic symbols text = .error e := by
  unfold arithmetic
  split
  · rename_i joint only
    obtain ⟨e, fails⟩ := term_of_quote symbols (quote_mem_left form (only ▸ List.mem_singleton_self _))
    rw [fails]
    exact ⟨e, rfl⟩
  · exact ⟨_, rfl⟩

theorem resolve_of_joined_parse (parsed : Literal.parse text = .ok l)
    (joined : Joined (Text.trim text.toList)) (symbols : SymbolTable) (pool : LiteralPool) :
    ∃ e, resolve symbols pool text = .error e := by
  obtain ⟨form, _⟩ := Literal.form_of_parse parsed
  obtain ⟨e, fails⟩ := arithmetic_of_quote form symbols
  have mode := (classify_of_form form (Text.trim_trim _)).2 joined
  unfold resolve
  simp only [mode, resolveQuantity, fails]
  exact ⟨e, rfl⟩

/-- A text that is read as a constant is one to the classifier, and evaluates to the bytes that it reads
as, unless it is joined: then it is an expression, and has no value. -/
theorem resolve_of_parse (parsed : Literal.parse text = .ok l) :
    (¬ Joined (Text.trim text.toList) → classify text.toList = .literal l.kind ∧
      ∀ symbols pool, ∃ o pool', resolve symbols pool text = .ok (o, pool') ∧
        o.kind = .addressed (.literal l.kind) ∧ o.bytes = l.bytes) ∧
    (Joined (Text.trim text.toList) → classify text.toList = .arithmetic ∧
      ∀ symbols pool, ∃ e, resolve symbols pool text = .error e) := by
  have same_mode : classify text.toList = modeOf text := by
    unfold modeOf classify
    rw [Text.trim_trim]
  constructor
  · intro whole
    refine ⟨same_mode.trans (modeOf_of_parse parsed whole), fun symbols pool => ?_⟩
    cases pooled : l.kind.isPooled with
    | true =>
      obtain ⟨stored, pool', evaluated, _⟩ :=
        resolve_of_pooled_parse parsed whole pooled symbols pool
      exact ⟨_, pool', evaluated, rfl, rfl⟩
    | false =>
      exact ⟨_, pool, resolve_of_unpooled_parse parsed whole pooled symbols pool, rfl, rfl⟩
  · intro joined
    have mode := (classify_of_form (Literal.form_of_parse parsed).1 (Text.trim_trim _)).2 joined
    exact ⟨same_mode.trans mode, resolve_of_joined_parse parsed joined⟩

/-- A sign and the end of an index suffix inside the apostrophes. -/
theorem resolve_of_parse_signed :
    Literal.parse " =c'A+B,X' " =
      .ok ⟨"=c'A+B,X'", .pooledString, [0x41, 0x2B, 0x42, 0x2C, 0x58], none⟩ ∧
    classify " =c'A+B,X' ".toList = .literal .pooledString := by
  have parsed : Literal.parse " =c'A+B,X' " =
    .ok ⟨"=c'A+B,X'", .pooledString, [0x41, 0x2B, 0x42, 0x2C, 0x58], none⟩ := rfl
  have whole : ¬ Joined (Text.trim " =c'A+B,X' ".toList) :=
    (joints_eq_nil_iff fun c first => by cases first; rfl).1 rfl
  exact ⟨parsed, ((resolve_of_parse parsed).1 whole).1⟩

/-- The apostrophes inside this constant end a quotation and start another, so that the sign stands
outside. -/
theorem joined_constant_without_value :
    Literal.parse "C'A'+'B'" =
      .ok ⟨"C'A'+'B'", .constantString, [0x41, 0x27, 0x2B, 0x27, 0x42], none⟩ ∧
    classify "C'A'+'B'".toList = .arithmetic ∧
    ∀ symbols pool, ∃ e, resolve symbols pool "C'A'+'B'" = .error e := by
  have parsed : Literal.parse "C'A'+'B'" =
    .ok ⟨"C'A'+'B'", .constantString, [0x41, 0x27, 0x2B, 0x27, 0x42], none⟩ := rfl
  have joined : Joined (Text.trim "C'A'+'B'".toList) :=
    ⟨"C'A'".toList, '+', "'B'".toList, rfl, by decide, Or.inl rfl, by decide⟩
  exact ⟨parsed, rfl, resolve_of_joined_parse parsed joined⟩

end Evaluation

end Operand

end SicXe
