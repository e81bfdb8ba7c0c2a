import SicXe.Proofs.Literal.Value
import SicXe.Proofs.Operand.Tree

/-!
# Evaluation by meaning

The text of a tree evaluates to what the tree means (`resolve_text`). Marks and suffixes are cut off in
different places, and an integer alone is read as a constant, but each term comes to be read as it was
written (`agrees_term`), and two terms are looked at from the left (`agrees_arithmetic`).
-/
namespace SicXe.Operand

/-- A result for a meaning: the same, or an error for the same reason. -/
inductive Agrees {α : Type} : Except Failure α → Except Error α → Prop where
  | value (a : α) : Agrees (.ok a) (.ok a)
  | undefined (n : Name) :
      Agrees (.error (.undefined n)) (.error (.undefinedSymbol (String.ofList n.text)))
  | number (text : String) : Agrees (.error .outOfRange) (.error (.invalidNumber text))
  | constant (e : Literal.Error) : Agrees (.error .outOfRange) (.error (.invalidLiteral e))

theorem Agrees.map {α β : Type} {meaning : Except Failure α} {result : Except Error α}
    (agrees : Agrees meaning result) (f : α → β) : Agrees (meaning.map f) (result.map f) := by
  cases agrees with
  | value a => exact .value (f a)
  | undefined n => exact .undefined n
  | number text => exact .number text
  | constant e => exact .constant e

theorem Agrees.eq_ok {α : Type} {a : α} {result : Except Error α} (agrees : Agrees (.ok a) result) :
    result = .ok a := by
  cases agrees
  rfl

theorem agrees_inRange (value : Int) (relocatable : Bool) (text : String) :
    Agrees (inRange value relocatable)
      (if Word.fits value then .ok ⟨value, relocatable⟩ else .error (.invalidNumber text)) := by
  unfold inRange
  split
  · exact .value _
  · exact .number text

/-! ### Terms -/

variable (symbols : SymbolTable)

theorem agrees_symbol (n : Name) : Agrees (n.meaning symbols) (symbol symbols n.text) := by
  have trimmed : Text.trim n.text = n.text := Text.trim_of_no_blank fun c member =>
    Label.isBlank_of_isLabelChar ((Atom.name n).isLabelChar c member)
  have normal : Label.normalize (String.ofList n.text) =
      .ok (String.ofList (n.text.map Char.toUpper)) := by
    rw [Label.normalize_eq_ok_iff, String.toList_ofList, trimmed]
    exact ⟨n.valid, rfl⟩
  unfold symbol Name.meaning
  simp only [trimmed, SymbolTable.lookup, normal]
  cases symbols.get? (String.ofList (n.text.map Char.toUpper)) with
  | none => exact .undefined n
  | some s => exact .value _

theorem dropWhile_marked (mark : Option Mark) (left : Lead) :
    (marked mark left.text).dropWhile isAddressingMark = left.text := by
  have unmarked : left.text.dropWhile isAddressingMark = left.text := by
    cases parts : left.text with
    | nil => rfl
    | cons first rest =>
      refine List.dropWhile_cons_of_neg fun mark => left.not_mark mark ?_
      rw [parts, List.head?_cons]
  cases mark with
  | none => exact unmarked
  | some m =>
    rw [marked, List.dropWhile_cons_of_pos (by cases m <;> rfl)]
    exact unmarked

theorem Lead.meaning_of_integer {left : Lead} {value : Int} (integer : left.integer? = some value) :
    left.meaning symbols = inRange value false := by
  cases left with
  | atom a =>
    cases a with
    | name n => cases integer
    | digits d =>
      cases integer
      rfl
  | signed sign d =>
    cases integer
    rfl

/-- A term has its meaning, behind a mark or not. -/
theorem agrees_term (mark : Option Mark) (left : Lead) :
    Agrees (left.meaning symbols) (term symbols (marked mark left.text)) := by
  have trimmed := Tree.trim_base ⟨mark, left, none, none⟩
  rw [Tree.base_of_single rfl] at trimmed
  have filled : left.text.isEmpty = false := by
    obtain ⟨first, rest, parts, _⟩ := left.parts
    rw [parts, List.isEmpty_cons]
  unfold term
  simp only [trimmed, dropWhile_marked, filled, Bool.false_eq_true, if_false, left.integer?_text]
  cases integer : left.integer? with
  | some value =>
    rw [left.meaning_of_integer symbols integer]
    exact agrees_inRange value false _
  | none =>
    obtain ⟨n, rfl⟩ := Lead.name_of_no_integer integer
    exact agrees_symbol symbols n

/-! ### Expressions -/

theorem agrees_arithmetic {t : Tree} {sign : Sign} {right : Atom}
    (joined : t.right = some (sign, right)) :
    Agrees (t.meaning symbols) (arithmetic symbols t.base) := by
  have first := agrees_term symbols t.mark t.left
  have second := agrees_term symbols none (.atom right)
  have scanned := joints_base t
  rw [joined] at scanned
  unfold arithmetic Tree.meaning
  rw [scanned, joined]
  dsimp only [Option.map_some, Option.toList_some]
  -- The right term is looked at only if the left one has a value.
  generalize t.left.meaning symbols = left, term symbols (marked t.mark t.left.text) = left' at first ⊢
  cases first with
  | undefined n => exact .undefined n
  | number text => exact .number text
  | constant e => exact .constant e
  | value left =>
    change Agrees (right.meaning symbols) (term symbols right.text) at second
    dsimp only
    generalize right.meaning symbols = right', term symbols right.text = right'' at second ⊢
    cases second with
    | undefined n => exact .undefined n
    | number text => exact .number text
    | constant e => exact .constant e
    | value right => exact agrees_inRange _ _ _

theorem Tree.meaning_of_single {t : Tree} (single : t.right = none) :
    t.meaning symbols = t.left.meaning symbols := by
  unfold Tree.meaning
  rw [single]
  cases t.left.meaning symbols <;> rfl

/-- A tree without its suffix has the meaning of the tree. -/
theorem agrees_quantity (t : Tree) : Agrees (t.meaning symbols) (quantity symbols t.base) := by
  unfold quantity
  rw [joints_base]
  cases joined : t.right with
  | some right => exact agrees_arithmetic symbols joined
  | none =>
    rw [t.meaning_of_single symbols joined, Tree.base_of_single joined]
    exact agrees_term symbols t.mark t.left

/-! ### Operands -/

/-- The operand that a tree with a value is evaluated to. Only an integer alone has bytes. -/
def Tree.operand (t : Tree) (q : Quantity) : Operand :=
  ⟨String.ofList t.text, .addressed t.mode, q.value, q.relocatable,
    if t.mode = .literal .decimal then Literal.decimalBytes q.value else []⟩

/-- A tree that is no constant keeps the pool. -/
theorem agrees_resolve {t : Tree} (other : ∀ kind, t.mode ≠ .literal kind) (pool : LiteralPool)
    (agrees : Agrees (t.meaning symbols) (resolveQuantity symbols t.mode t.text)) :
    Agrees ((t.meaning symbols).map fun q => (t.operand q, pool))
      (resolve symbols pool (String.ofList t.text)) := by
  have operand : t.operand = ofQuantity t.text t.mode := by
    funext q
    rw [Tree.operand, if_neg (other _), ofQuantity]
  have evaluated : resolve symbols pool (String.ofList t.text) =
      (resolveQuantity symbols t.mode t.text).map fun q => (ofQuantity t.text t.mode q, pool) := by
    unfold resolve
    simp only [String.toList_ofList, t.trim_text, classify_text]
    cases mode : t.mode with
    | literal kind => exact absurd mode (other kind)
    | _ => rfl
  rw [evaluated, operand]
  exact agrees.map _

theorem agrees_resolve_constant {t : Tree} (constant : t.mode = .literal .decimal) (pool : LiteralPool)
    (agrees : Agrees ((t.meaning symbols).map t.operand) (resolveConstant t.text)) :
    Agrees ((t.meaning symbols).map fun q => (t.operand q, pool))
      (resolve symbols pool (String.ofList t.text)) := by
  have evaluated : resolve symbols pool (String.ofList t.text) =
      (resolveConstant t.text).map (·, pool) := by
    unfold resolve
    simp only [String.toList_ofList, t.trim_text, classify_text, constant]
  have paired : ((t.meaning symbols).map fun q => (t.operand q, pool)) =
      ((t.meaning symbols).map t.operand).map (·, pool) := by
    cases t.meaning symbols <;> rfl
  rw [evaluated, paired]
  exact agrees.map _

/-- A decimal integer without a mark is read as a constant: it has its value and the bytes of it. -/
theorem agrees_constant {left : Lead} {value : Int} (integer : left.integer? = some value) :
    Agrees ((inRange value false).map fun q => (⟨String.ofList left.text, .addressed (.literal .decimal),
      q.value, q.relocatable, Literal.decimalBytes q.value⟩ : Operand)) (resolveConstant left.text) := by
  have trimmed : Text.trim (String.ofList left.text).toList = left.text := by
    rw [String.toList_ofList]
    exact left.trim_text
  have spelled : Text.integer? left.text = some value := by
    rw [left.integer?_text, integer]
  unfold resolveConstant
  cases fits : Word.fits value with
  | true =>
    have read : Literal.decimal? (Text.trim (String.ofList left.text).toList) = some value := by
      rw [trimmed, Literal.decimal?, spelled, Option.filter_some, if_pos fits]
    obtain ⟨l, parsed, kind, same, bytes⟩ := Literal.parse_of_decimal read
    rw [parsed, inRange, fits]
    dsimp only
    rw [kind, same, bytes]
    exact .value _
  | false =>
    have unread : Literal.decimal? left.text = none := by
      rw [Literal.decimal?, spelled, Option.filter_some, fits]
      rfl
    have invalid : Literal.parse (String.ofList left.text) = .error ⟨String.ofList left.text⟩ := by
      have none_there := Literal.constant?_of_no_quote
        (left.not_mem_text (c := Literal.quote) (by unfold IsTreeChar; decide))
        (Text.integer?_unpooled spelled)
      rw [unread] at none_there
      simp only [Literal.parse, trimmed, none_there, Option.map_none]
    rw [invalid, inRange, fits]
    exact .constant _

/-! ### Trees -/

variable {t : Tree}

theorem resolve_indexed {letter : IndexLetter} (indexed : t.suffix = some letter) (pool : LiteralPool) :
    Agrees ((t.meaning symbols).map fun q => (t.operand q, pool))
      (resolve symbols pool (String.ofList t.text)) := by
  have mode : t.mode = .indexed := by
    rw [Tree.mode, indexed]
    rfl
  have filled : t.base.isEmpty = false := by
    obtain ⟨first, rest, parts, _⟩ := t.left.parts
    unfold Tree.base
    cases t.mark with
    | none => rw [marked, parts]; rfl
    | some m => rfl
  have cut := indexBase?_text t
  rw [indexed, Option.map_some] at cut
  refine agrees_resolve symbols (by simp [mode]) pool ?_
  rw [mode]
  simp only [resolveQuantity, cut, Option.getD_some, t.trim_base, filled, Bool.false_eq_true, if_false]
  exact agrees_quantity symbols t

theorem resolve_joined {sign : Sign} {right : Atom} (plain : t.suffix = none)
    (joined : t.right = some (sign, right)) (pool : LiteralPool) :
    Agrees ((t.meaning symbols).map fun q => (t.operand q, pool))
      (resolve symbols pool (String.ofList t.text)) := by
  have mode : t.mode = .arithmetic := by
    rw [Tree.mode, plain, joined]
    rfl
  refine agrees_resolve symbols (by simp [mode]) pool ?_
  rw [mode, Tree.text_of_plain plain]
  exact agrees_arithmetic symbols joined

theorem resolve_marked {m : Mark} (first : t.mark = some m) (plain : t.suffix = none)
    (single : t.right = none) (named : t.mode = .indirect → ∃ n, t.left = .atom (.name n))
    (pool : LiteralPool) :
    Agrees ((t.meaning symbols).map fun q => (t.operand q, pool))
      (resolve symbols pool (String.ofList t.text)) := by
  have text : t.text = m.char :: t.left.text := by
    rw [Tree.text_of_plain plain, Tree.base_of_single single, first, marked]
  have meaning := t.meaning_of_single symbols single
  cases m with
  | immediate =>
    have mode : t.mode = .immediate := by
      rw [Tree.mode, plain, single, first]
      rfl
    refine agrees_resolve symbols (by simp [mode]) pool ?_
    rw [mode, text, meaning]
    -- Behind the mark stands the text of the term alone.
    have alone := agrees_quantity symbols ⟨none, t.left, none, none⟩
    rw [Tree.meaning_of_single symbols rfl, Tree.base_of_single rfl] at alone
    exact alone
  | indirect =>
    have mode : t.mode = .indirect := by
      rw [Tree.mode, plain, single, first]
      rfl
    obtain ⟨n, name⟩ := named mode
    refine agrees_resolve symbols (by simp [mode]) pool ?_
    rw [mode, text, meaning, name]
    exact agrees_symbol symbols n

theorem resolve_unmarked (first : t.mark = none) (plain : t.suffix = none) (single : t.right = none)
    (pool : LiteralPool) :
    Agrees ((t.meaning symbols).map fun q => (t.operand q, pool))
      (resolve symbols pool (String.ofList t.text)) := by
  have text : t.text = t.left.text := by
    rw [Tree.text_of_plain plain, Tree.base_of_single single, first, marked]
  have meaning := t.meaning_of_single symbols single
  cases integer : t.left.integer? with
  | none =>
    obtain ⟨n, name⟩ := Lead.name_of_no_integer integer
    have mode : t.mode = .simple := by
      rw [Tree.mode, plain, single, first, name]
      rfl
    refine agrees_resolve symbols (by simp [mode]) pool ?_
    rw [mode, text, meaning, name]
    exact agrees_symbol symbols n
  | some value =>
    have mode : t.mode = .literal .decimal := by
      rw [Tree.mode, plain, single, first]
      cases left : t.left with
      | atom a =>
        cases a with
        | name n =>
          rw [left] at integer
          cases integer
        | digits d => rfl
      | signed sign d => rfl
    have operand : t.operand = fun q => ⟨String.ofList t.left.text, .addressed (.literal .decimal),
        q.value, q.relocatable, Literal.decimalBytes q.value⟩ := by
      funext q
      rw [Tree.operand, mode, text, if_pos rfl]
    refine agrees_resolve_constant symbols mode pool ?_
    rw [operand, text, meaning, Lead.meaning_of_integer symbols integer]
    exact agrees_constant integer

/-- The text of a tree evaluates to what the tree means, and in the mode that its form gives. It takes
nothing from the pool and adds nothing to it. Behind the mark of indirect addressing, an integer alone
would be looked up as a label. -/
theorem resolve_text (t : Tree) (symbols : SymbolTable) (pool : LiteralPool)
    (named : t.mode = .indirect → ∃ n, t.left = .atom (.name n)) :
    Agrees ((t.meaning symbols).map fun q => (t.operand q, pool))
      (resolve symbols pool (String.ofList t.text)) := by
  cases indexed : t.suffix with
  | some letter => exact resolve_indexed symbols indexed pool
  | none =>
    cases joined : t.right with
    | some right => exact resolve_joined symbols indexed joined pool
    | none =>
      cases first : t.mark with
      | some m => exact resolve_marked symbols first indexed joined named pool
      | none => exact resolve_unmarked symbols first indexed joined pool

/-- A label behind the mark of indirect addressing, and an indexed sum of a number and a label. -/
theorem resolve_text_of_one_symbol :
    let symbols : SymbolTable := ⟨[("BETA", ⟨"BETA", 4096, true, false⟩)]⟩
    let pool : LiteralPool := .empty
    resolve symbols pool "@Beta" = .ok (⟨"@Beta", .addressed .indirect, 4096, true, []⟩, pool) ∧
    resolve symbols pool "#-4+beta,x" =
      .ok (⟨"#-4+beta,x", .addressed .indexed, 4092, true, []⟩, pool) := by
  intro symbols pool
  let named : Name := ⟨"Beta".toList, by decide⟩
  let beta : Name := ⟨"beta".toList, by decide⟩
  have four : Text.natural? 10 ['4'] = some 4 := rfl
  let digits : Digits := ⟨['4'], (Text.natural?_eq_some_iff.1 four).1⟩
  have indirect := resolve_text ⟨some .indirect, .atom (.name named), none, none⟩ symbols pool
    fun _ => ⟨named, rfl⟩
  have indexed := resolve_text
    ⟨some .immediate, .signed .minus digits, some (.plus, .name beta), some .small⟩ symbols pool nofun
  exact ⟨indirect.eq_ok, indexed.eq_ok⟩

end SicXe.Operand
