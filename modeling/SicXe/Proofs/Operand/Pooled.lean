import SicXe.Proofs.Literal.Form
import SicXe.Proofs.Operand.Evaluation

/-!
# Which operands take part in the pool

A constant is one of the pool exactly if it starts with an equals sign (`isPooled_iff_of_mode`). Reading
it then finds the kind that its marks announced (`announcedKind_of_form`), so an evaluated operand
of the pool says by itself which literal it uses (`Operand.literal?`), and `uses_of_resolve` says what
this does to the pool. Any other operand leaves the pool alone.
-/
namespace SicXe

/-- Whether a constant of this kind has a place in the pool. -/
def Literal.Kind.isPooled : Literal.Kind → Bool
  | pooledNumber | pooledString => true
  | constantNumber | constantString | decimal => false

/-- The literal that an operand uses: its constant, not yet in any pool. -/
def Operand.literal? (o : Operand) : Option Literal :=
  match o.kind with
  | .addressed (.literal kind) =>
    if kind.isPooled then some ⟨o.expression, kind, o.bytes, none⟩ else none
  | _ => none

/-! ### Kinds of constants -/

namespace Literal

theorem isConstantForm_of_equals {text : List Char} (h : (Text.trim text).head? = some '=') :
    isConstantForm text = true := by
  obtain ⟨rest, starts⟩ := List.head?_eq_some_iff.1 h
  unfold isConstantForm
  rw [starts]
  rfl

/-- A constant is one of the pool exactly if it starts with an equals sign. -/
theorem isPooled_iff_of_form {text : List Char} {kind : Kind} {bytes : List UInt8}
    (form : Form text kind bytes) : kind.isPooled = true ↔ text.head? = some '=' := by
  cases form with
  | decimal unpooled read => exact ⟨fun pooled => (nomatch pooled), fun equals => absurd equals unpooled⟩
  | quoted pooled number upper filled read =>
    have no_equals := ne_equals_of_upper upper
    cases pooled <;> cases number <;> simp [quotedKind, Kind.isPooled, no_equals]

end Literal

namespace Operand

theorem isPooled_announcedKind (text : List Char) :
    (announcedKind text).isPooled = true ↔ text.head? = some '=' := by
  dsimp only [announcedKind]
  split
  · rename_i equals
    split <;> exact ⟨fun _ => equals, fun _ => rfl⟩
  · rename_i other
    split <;> exact ⟨fun pooled => (nomatch pooled), fun equals => absurd equals other⟩

theorem announcedKind_of_quoted {pooled number : Bool} {marker : Char} (rest : List Char)
    (upper : marker.toUpper = if number then 'X' else 'C') :
    announcedKind ((if pooled then ['='] else []) ++ marker :: rest) =
      Literal.quotedKind pooled number := by
  -- Only one equals sign is taken off when a literal is read; all are when its kind is announced.
  have no_equals := Literal.ne_equals_of_upper upper
  cases pooled <;> cases number <;> simp [announcedKind, Literal.quotedKind, no_equals, upper]

/-- The marks of a literal announce the kind that is read. -/
theorem announcedKind_of_form {text : List Char} {kind : Literal.Kind} {bytes : List UInt8}
    (form : Literal.Form text kind bytes) (pooled : kind.isPooled = true) : announcedKind text = kind := by
  cases form with
  | decimal unpooled read => cases pooled
  | quoted pooled number upper filled read => exact announcedKind_of_quoted _ upper

/-! ### Modes of operands -/

/-- The kind in the mode of a constant is the one that its marks announce, but for bare numbers. -/
theorem kind_of_classify {text : List Char} {kind : Literal.Kind}
    (mode : classify text = .literal kind) :
    kind = announcedKind (Text.trim text) ∨
      (kind = .decimal ∧ (Text.trim text).head? ≠ some '=') := by
  dsimp only [classify] at mode
  -- The four forms that come before constants are others.
  iterate 4
    split at mode
    · cases mode
  split at mode
  · cases mode
    exact Or.inl rfl
  · rename_i no_constant
    split at mode
    · cases mode
      refine Or.inr ⟨rfl, fun equals => no_constant ?_⟩
      exact Literal.isConstantForm_of_equals (by rw [Text.trim_trim]; exact equals)
    · cases mode

/-- A constant is one of the pool exactly if it starts with an equals sign. -/
theorem isPooled_iff_of_mode {expression : String} {kind : Literal.Kind}
    (mode : modeOf expression = .literal kind) :
    kind.isPooled = true ↔ (Text.trim expression.toList).head? = some '=' := by
  have kinds := kind_of_classify mode
  rw [Text.trim_trim] at kinds
  rcases kinds with rfl | ⟨rfl, other⟩
  · exact isPooled_announcedKind _
  · exact ⟨fun pooled => (nomatch pooled), fun equals => absurd equals other⟩

theorem resolve_of_pooled {expression : String} {kind : Literal.Kind}
    (mode : modeOf expression = .literal kind) (pooled : kind.isPooled = true)
    (symbols : SymbolTable) (pool : LiteralPool) : resolve symbols pool expression =
      resolvePooled pool kind (Text.trim expression.toList) := by
  rw [modeOf] at mode
  unfold resolve
  cases kind with
  | pooledNumber => simp only [mode]
  | pooledString => simp only [mode]
  | _ => cases pooled

theorem resolve_of_unpooled {expression : String} {kind : Literal.Kind}
    (mode : modeOf expression = .literal kind) (unpooled : kind.isPooled = false)
    (symbols : SymbolTable) (pool : LiteralPool) : resolve symbols pool expression =
      (resolveConstant (Text.trim expression.toList)).map fun o => (o, pool) := by
  rw [modeOf] at mode
  unfold resolve
  cases kind with
  | pooledNumber => cases unpooled
  | pooledString => cases unpooled
  | _ => simp only [mode]

/-! ### Evaluation -/

variable {symbols : SymbolTable} {pool pool' : LiteralPool} {expression : String} {o : Operand}

/-- An operand that does not start with an equals sign leaves the pool alone. -/
theorem pool_of_no_equals (other : (Text.trim expression.toList).head? ≠ some '=')
    (h : resolve symbols pool expression = .ok (o, pool')) : pool' = pool := by
  by_cases constant : IsConstant expression
  · obtain ⟨kind, mode⟩ := constant
    have unpooled : kind.isPooled = false :=
      Bool.eq_false_iff.2 fun pooled => other ((isPooled_iff_of_mode mode).1 pooled)
    rw [resolve_of_unpooled mode unpooled] at h
    exact (map_pool_ok h).1
  · exact pool_of_not_constant constant h

/-- The literal of an operand is what it was written as. -/
theorem literal?_eq_some {used : Literal} (uses : o.literal? = some used) :
    ∃ kind, o.kind = .addressed (.literal kind) ∧ kind.isPooled = true ∧
      used = ⟨o.expression, kind, o.bytes, none⟩ := by
  unfold literal? at uses
  split at uses
  · rename_i kind addressed
    split at uses
    · rename_i pooled
      cases uses
      exact ⟨kind, addressed, pooled, rfl⟩
    · cases uses
  · cases uses

/-- What an evaluated operand has to do with the pool: nothing, or its literal has a place there, or it
gets the next one. -/
inductive Uses (pool : LiteralPool) (o : Operand) : LiteralPool → Prop where
  | nothing (unused : o.literal? = none) : Uses pool o pool
  | known {used l : Literal} (uses : o.literal? = some used)
      (found : pool.get? used.bytes = some l) (value : o.value = l.address.getD 0) : Uses pool o pool
  | new {used : Literal} (uses : o.literal? = some used) (absent : pool.get? used.bytes = none)
      (value : o.value = pool.nextAddress) :
      Uses pool o ⟨pool.literals ++ [{ used with address := some pool.nextAddress }],
        Word.wrap (pool.nextAddress + 1)⟩

/-- A constant of the pool uses the literal that it reads as. -/
theorem uses_of_resolvePooled {kind : Literal.Kind} (mode : modeOf expression = .literal kind)
    (pooled : kind.isPooled = true)
    (h : resolvePooled pool kind (Text.trim expression.toList) = .ok (o, pool')) :
    Uses pool o pool' := by
  obtain ⟨l, registered, rfl⟩ := resolvePooled_ok h
  obtain ⟨parsed, read, found⟩ := LiteralPool.register_cases registered
  rw [Literal.parse_trim] at read
  obtain ⟨form, parts⟩ := Literal.form_of_parse read
  have equals := (isPooled_iff_of_mode mode).1 pooled
  have same_kind : kind = parsed.kind := by
    have announced := announcedKind_of_form form ((Literal.isPooled_iff_of_form form).2 equals)
    have kinds := kind_of_classify mode
    rw [Text.trim_trim] at kinds
    rcases kinds with same | ⟨_, other⟩
    · exact same.trans announced
    · exact absurd equals other
  have uses (bytes : l.bytes = parsed.bytes) : Operand.literal? ⟨String.ofList
      (Text.trim expression.toList), .addressed (.literal kind), l.address.getD 0, false,
        l.bytes⟩ = some parsed := by
    rw [parts, bytes, ← same_kind]
    simp [literal?, pooled]
  rcases found with ⟨found, rfl⟩ | ⟨absent, rfl, rfl⟩
  · have bytes : l.bytes = parsed.bytes := by simpa using List.find?_some found
    exact .known (uses bytes) found rfl
  · exact .new (uses rfl) absent rfl

theorem constantKind_of_unpooled {kind : Literal.Kind} (unpooled : kind.isPooled = false) :
    constantKind kind = kind := by
  cases kind with
  | pooledNumber => cases unpooled
  | pooledString => cases unpooled
  | _ => rfl

theorem isPooled_constantKind (kind : Literal.Kind) : (constantKind kind).isPooled = false := by
  cases kind <;> rfl

/-- Any other constant uses none. -/
theorem literal?_of_resolveConstant {text : List Char} (h : resolveConstant text = .ok o) :
    o.literal? = none := by
  unfold resolveConstant at h
  split at h
  · cases h
  · cases h
    simp only [literal?, isPooled_constantKind, Bool.false_eq_true, if_false]

theorem literal?_ofQuantity {text : List Char} {mode : Mode} (other : ∀ kind, mode ≠ .literal kind)
    (q : Quantity) : (ofQuantity text mode q).literal? = none := by
  cases mode with
  | literal kind => exact absurd rfl (other kind)
  | _ => rfl

/-- Nor does an operand that is no constant, even if it starts with an equals sign. -/
theorem literal?_of_not_constant (other : ¬ IsConstant expression)
    (h : resolve symbols pool expression = .ok (o, pool')) : o.literal? = none := by
  rcases resolve_cases expression with ⟨kind, mode, _⟩ | ⟨constant, _⟩ | ⟨_, eq⟩
  · exact absurd ⟨kind, mode⟩ other
  · exact absurd constant other
  · rw [eq] at h
    obtain ⟨_, q, _, rfl⟩ := map_pool_ok h
    exact literal?_ofQuantity (fun kind mode => other ⟨kind, mode⟩) q

theorem uses_of_resolve (h : resolve symbols pool expression = .ok (o, pool')) :
    Uses pool o pool' := by
  by_cases constant : IsConstant expression
  · obtain ⟨kind, mode⟩ := constant
    cases pooled : kind.isPooled with
    | true =>
      rw [resolve_of_pooled mode pooled] at h
      exact uses_of_resolvePooled mode pooled h
    | false =>
      rw [resolve_of_unpooled mode pooled] at h
      obtain ⟨rfl, _, read, rfl⟩ := map_pool_ok h
      exact .nothing (literal?_of_resolveConstant read)
  · obtain rfl := pool_of_not_constant constant h
    exact .nothing (literal?_of_not_constant constant h)

end Operand

end SicXe
