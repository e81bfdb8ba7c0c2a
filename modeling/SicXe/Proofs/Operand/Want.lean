import SicXe.Proofs.Operand.Evaluation

/-!
# Operands that want for a symbol

Evaluation stops at the first error. An operand that wants for a symbol has not been looked at behind
that symbol: when the symbol is known, two terms may turn out to have a right one that is none, or a
result that is out of range (`JointError`). Nothing else comes to light late (`resolve_of_wanting`), for
a single term that wants for a symbol wants for that symbol only (`Needs`).
-/
namespace SicXe.Operand

variable {former later : SymbolTable} {name : String}

/-- What a term is read from: it without outer blanks and addressing marks. -/
def termText (raw : List Char) : List Char := (Text.trim raw).dropWhile isAddressingMark

/-- The name of the symbol that a term is, unless it is an integer. -/
def termName (raw : List Char) : String := String.ofList (Text.trim (termText raw))

/-- The name is that of one of two joined terms. -/
def NamesTerm (text : List Char) (name : String) : Prop :=
  ∃ joint, joints text = [joint] ∧ (name = termName joint.left ∨ name = termName joint.right)

/-- An error of two terms other than an undefined symbol, if the left one has a value: the right one
is missing or out of range, or their sum or difference is. -/
inductive JointError (symbols : SymbolTable) (text : List Char) : Error → Prop where
  | missing {joint : Joint} {left : Quantity} (only : joints text = [joint])
      (known : term symbols joint.left = .ok left) (nothing : termText joint.right = []) :
      JointError symbols text (.expressionSyntax (String.ofList joint.right) .term)
  | outOfRange {joint : Joint} {left : Quantity} {value : Int} (only : joints text = [joint])
      (known : term symbols joint.left = .ok left)
      (integer : Text.integer? (termText joint.right) = some value)
      (outside : Word.fits value = false) :
      JointError symbols text (.invalidNumber (String.ofList (termText joint.right)))
  | overflow {joint : Joint} {left right : Quantity} (only : joints text = [joint])
      (known : term symbols joint.left = .ok left) (value : term symbols joint.right = .ok right)
      (outside : Word.fits (joint.sign.apply left.value right.value) = false) :
      JointError symbols text (.invalidNumber (String.ofList text))

/-! ### Single terms -/

theorem symbol_cases (symbols : SymbolTable) (text : List Char) :
    (symbols.contains (String.ofList (Text.trim text)) = true ∧
      ∃ q, symbol symbols text = .ok q) ∨
    (symbols.contains (String.ofList (Text.trim text)) = false ∧
      symbol symbols text = .error (.undefinedSymbol (String.ofList (Text.trim text)))) := by
  unfold SymbolTable.contains symbol
  cases found : symbols.lookup (String.ofList (Text.trim text)) with
  | some s => exact Or.inl ⟨rfl, ⟨s.value, s.relocatable⟩, by simp only [found]⟩
  | none => exact Or.inr ⟨rfl, by simp only [found]⟩

/-- The ways in which a term has no value. -/
theorem term_error {symbols : SymbolTable} {raw : List Char} {e : Error}
    (h : term symbols raw = .error e) :
    (termText raw = [] ∧ e = .expressionSyntax (String.ofList raw) .term) ∨
    (∃ value, Text.integer? (termText raw) = some value ∧ Word.fits value = false ∧
      e = .invalidNumber (String.ofList (termText raw))) ∨
    (Text.integer? (termText raw) = none ∧ termText raw ≠ [] ∧
      symbol symbols (termText raw) = .error e) := by
  dsimp only [term] at h
  split at h
  · rename_i nothing
    cases h
    exact Or.inl ⟨List.isEmpty_iff.1 nothing, rfl⟩
  · rename_i something
    have filled : termText raw ≠ [] := fun nothing => something (List.isEmpty_iff.2 nothing)
    split at h
    · rename_i value read
      split at h
      · cases h
      · rename_i outside
        cases h
        exact Or.inr (Or.inl ⟨value, read, Bool.eq_false_iff.2 outside, rfl⟩)
    · rename_i read
      exact Or.inr (Or.inr ⟨read, filled, h⟩)

/-- A computation that needs one symbol and cannot fail but for want of it. -/
def Needs (name : String) (value : SymbolTable → Except Error Quantity) : Prop :=
  ∀ symbols : SymbolTable, (symbols.contains name = true ∧ ∃ q, value symbols = .ok q) ∨
    (symbols.contains name = false ∧ value symbols = .error (.undefinedSymbol name))

theorem Needs.unknown {value : SymbolTable → Except Error Quantity} (needs : Needs name value)
    {symbols : SymbolTable} {e : Error} (h : value symbols = .error e) :
    symbols.contains name = false := by
  rcases needs symbols with ⟨_, q, valued⟩ | ⟨absent, _⟩
  · rw [valued] at h
    cases h
  · exact absent

theorem name_of_symbol {text : List Char}
    (wants : symbol former text = .error (.undefinedSymbol name)) :
    name = String.ofList (Text.trim text) := by
  rcases symbol_cases former text with ⟨_, q, valued⟩ | ⟨_, undefined⟩
  · rw [valued] at wants
    cases wants
  · rw [undefined] at wants
    cases wants
    rfl

theorem symbol_needs {text : List Char}
    (wants : symbol former text = .error (.undefinedSymbol name)) :
    Needs name (fun symbols => symbol symbols text) := by
  rw [name_of_symbol wants]
  exact fun symbols => symbol_cases symbols text

/-- A term wants for the symbol that it names. -/
theorem name_of_term {raw : List Char}
    (wants : term former raw = .error (.undefinedSymbol name)) : name = termName raw := by
  rcases term_error wants with ⟨_, other⟩ | ⟨_, _, _, other⟩ | ⟨_, _, wants⟩
  · cases other
  · cases other
  · exact name_of_symbol wants

theorem term_needs {raw : List Char}
    (wants : term former raw = .error (.undefinedSymbol name)) :
    Needs name (fun symbols => term symbols raw) := by
  rcases term_error wants with ⟨_, other⟩ | ⟨_, _, _, other⟩ | ⟨no_integer, filled, wants⟩
  · cases other
  · cases other
  · -- Whether a term is a symbol is decided by its text alone.
    have by_symbol (symbols : SymbolTable) : term symbols raw = symbol symbols (termText raw) := by
      unfold termText at no_integer filled ⊢
      dsimp only [term]
      rw [if_neg (by simpa using filled)]
      simp only [no_integer]
    intro symbols
    simp only [by_symbol]
    exact symbol_needs wants symbols

/-! ### Expressions -/

/-- Why an expression that wanted for a symbol has no value in a later table: it wants for one still, or
the symbol was one of its two terms and they are at fault. -/
inductive LateError (later : SymbolTable) (name : String) (text : List Char) : Error → Prop where
  | undefined {other : String} (absent : later.contains other = false) :
      LateError later name text (.undefinedSymbol other)
  | joint {e : Error} (known : later.contains name = true) (named : NamesTerm text name)
      (error : JointError later text e) : LateError later name text e

theorem lateError_of_needs {value : SymbolTable → Except Error Quantity} (needs : Needs name value)
    (text : List Char) {e : Error} (fails : value later = .error e) : LateError later name text e := by
  have absent := needs.unknown fails
  rcases needs later with ⟨known, _⟩ | ⟨_, wants⟩
  · rw [known] at absent
    cases absent
  · rw [wants] at fails
    cases fails
    exact .undefined absent

/-- Where the left term has a value, the right one is at fault or both together are. -/
theorem lateError_of_left {text : List Char} {joint : Joint} {left : Quantity} {e : Error}
    (only : joints text = [joint]) (known : later.contains name = true) (named : NamesTerm text name)
    (valued : term later joint.left = .ok left) (fails : arithmetic later text = .error e) :
    LateError later name text e := by
  unfold arithmetic at fails
  rw [only] at fails
  simp only [valued] at fails
  cases right : term later joint.right with
  | error second =>
    rw [right] at fails
    cases fails
    rcases term_error right with ⟨nothing, rfl⟩ | ⟨value, integer, outside, rfl⟩ | ⟨_, _, undefined⟩
    · exact .joint known named (.missing only valued nothing)
    · exact .joint known named (.outOfRange only valued integer outside)
    · rcases symbol_cases later (termText joint.right) with ⟨_, r, found⟩ | ⟨absent, lost⟩
      · rw [found] at undefined
        cases undefined
      · rw [lost] at undefined
        cases undefined
        exact .undefined absent
  | ok r =>
    simp only [right] at fails
    split at fails
    · cases fails
    · rename_i outside
      cases fails
      exact .joint known named (.overflow only valued right (Bool.eq_false_iff.2 outside))

theorem arithmetic_of_wanting (keeps : former.Keeps later) {text : List Char} {e : Error}
    (wants : arithmetic former text = .error (.undefinedSymbol name))
    (fails : arithmetic later text = .error e) :
    former.contains name = false ∧ LateError later name text e := by
  have again := fails
  unfold arithmetic at wants again
  split at wants
  case h_2 => cases wants
  case h_1 joint only =>
    rw [only] at again
    dsimp only at again
    cases left : term former joint.left with
    | error first =>
      rw [left] at wants
      cases wants
      have needs := term_needs left
      have named : NamesTerm text name := ⟨joint, only, Or.inl (name_of_term left)⟩
      refine ⟨needs.unknown left, ?_⟩
      rcases needs later with ⟨known, q, valued⟩ | ⟨absent, still⟩
      · -- The right term is looked at for the first time.
        exact lateError_of_left only known named valued fails
      · simp only [still] at again
        cases again
        exact .undefined absent
    | ok l =>
      have valued := term_of_keeps keeps left
      cases right : term former joint.right with
      | error second =>
        simp only [left, right] at wants
        cases wants
        have needs := term_needs right
        have named : NamesTerm text name := ⟨joint, only, Or.inr (name_of_term right)⟩
        refine ⟨needs.unknown right, ?_⟩
        rcases needs later with ⟨known, _⟩ | ⟨absent, still⟩
        · exact lateError_of_left only known named valued fails
        · simp only [valued, still] at again
          cases again
          exact .undefined absent
      | ok r =>
        simp only [left, right] at wants
        split at wants <;> cases wants

theorem quantity_of_wanting (keeps : former.Keeps later) {text : List Char} {e : Error}
    (wants : quantity former text = .error (.undefinedSymbol name))
    (fails : quantity later text = .error e) :
    former.contains name = false ∧ LateError later name text e := by
  unfold quantity at wants fails
  split at wants
  · rename_i single
    rw [if_pos single] at fails
    have needs := term_needs wants
    exact ⟨needs.unknown wants, lateError_of_needs needs text fails⟩
  · rename_i joined
    rw [if_neg joined] at fails
    exact arithmetic_of_wanting keeps wants fails

/-- The expression in an operand that is no constant: the operand without the marks of its mode. -/
def expressionIn (mode : Mode) (text : List Char) : List Char :=
  match mode with
  | .immediate | .indirect => text.drop 1
  | .indexed => (indexBase? text).getD []
  | _ => text

theorem resolveQuantity_of_wanting (keeps : former.Keeps later) {mode : Mode} {text : List Char}
    {e : Error} (wants : resolveQuantity former mode text = .error (.undefinedSymbol name))
    (fails : resolveQuantity later mode text = .error e) :
    former.contains name = false ∧ LateError later name (expressionIn mode text) e := by
  unfold resolveQuantity at wants fails
  cases mode with
  | immediate => exact quantity_of_wanting keeps wants fails
  | indexed =>
    dsimp only at wants fails
    split at wants
    · cases wants
    · rename_i filled
      rw [if_neg filled] at fails
      exact quantity_of_wanting keeps wants fails
  | arithmetic => exact arithmetic_of_wanting keeps wants fails
  | _ =>
    dsimp only at wants fails
    have needs := symbol_needs wants
    exact ⟨needs.unknown wants, lateError_of_needs needs _ fails⟩

/-- The expression in an operand column. -/
def expressionOf (column : String) : List Char :=
  expressionIn (modeOf column) (Text.trim column.toList)

theorem error_of_map {α β : Type} {result : Except Error α} {f : α → β} {e : Error}
    (h : result.map f = .error e) : result = .error e := by
  cases result with
  | error other =>
    cases h
    rfl
  | ok a => cases h

/-- An operand that wanted for a symbol fails in a later table for want of a symbol, or because there
is something wrong with its two terms that the symbol hid. -/
theorem resolve_of_wanting (keeps : former.Keeps later) {pool pool' : LiteralPool} {column : String}
    {e : Error} (wants : resolve former pool column = .error (.undefinedSymbol name))
    (fails : resolve later pool' column = .error e) :
    former.contains name = false ∧ LateError later name (expressionOf column) e := by
  have no_constant := not_constant_of_undefinedSymbol wants
  rcases resolve_cases column with ⟨kind, mode, _⟩ | ⟨constant, _⟩ | ⟨_, eq⟩
  · exact absurd ⟨kind, mode⟩ no_constant
  · exact absurd constant no_constant
  · rw [eq] at wants fails
    exact resolveQuantity_of_wanting keeps (error_of_map wants) (error_of_map fails)

end SicXe.Operand
