import SicXe.Operand.Resolve
import SicXe.Proofs.Literal.Pool
import SicXe.Proofs.Symbol.Table

/-!
# Evaluation in tables that have grown

An operand that has a value keeps it: evaluated again in tables that hold at least what the first ones
held, it comes out the same and adds nothing to the pool (`resolve_of_keeps`). An operand that fails
for want of a symbol is no constant (`not_constant_of_undefinedSymbol`), so no table ever makes it
touch the pool (`pool_of_not_constant`).
-/
namespace SicXe.Operand

variable {symbols symbols' : SymbolTable}

theorem symbol_of_keeps (keeps : symbols.Keeps symbols') {text : List Char} {q : Quantity}
    (h : symbol symbols text = .ok q) : symbol symbols' text = .ok q := by
  unfold symbol at h ⊢
  cases found : symbols.lookup (String.ofList (Text.trim text)) with
  | none => simp [found] at h
  | some s =>
    obtain ⟨marked, kept⟩ := keeps.lookup found
    simp only [found] at h
    simp only [kept]
    exact h

theorem term_of_keeps (keeps : symbols.Keeps symbols') {raw : List Char} {q : Quantity}
    (h : term symbols raw = .ok q) : term symbols' raw = .ok q := by
  dsimp only [term] at h ⊢
  split at h
  · cases h
  · rename_i filled
    rw [if_neg filled]
    split at h
    · exact h
    · exact symbol_of_keeps keeps h

theorem arithmetic_of_keeps (keeps : symbols.Keeps symbols') {text : List Char} {q : Quantity}
    (h : arithmetic symbols text = .ok q) : arithmetic symbols' text = .ok q := by
  unfold arithmetic at h ⊢
  split at h
  · rename_i joint _
    cases left : term symbols joint.left with
    | error e => simp [left] at h
    | ok l =>
      cases right : term symbols joint.right with
      | error e => simp [left, right] at h
      | ok r =>
        simp only [left, right] at h
        simp only [term_of_keeps keeps left, term_of_keeps keeps right]
        exact h
  · cases h

theorem quantity_of_keeps (keeps : symbols.Keeps symbols') {text : List Char} {q : Quantity}
    (h : quantity symbols text = .ok q) : quantity symbols' text = .ok q := by
  unfold quantity at h ⊢
  split at h
  · rename_i single
    rw [if_pos single]
    exact term_of_keeps keeps h
  · rename_i joined
    rw [if_neg joined]
    exact arithmetic_of_keeps keeps h

theorem resolveQuantity_of_keeps (keeps : symbols.Keeps symbols') {mode : Mode}
    {text : List Char} {q : Quantity} (h : resolveQuantity symbols mode text = .ok q) :
    resolveQuantity symbols' mode text = .ok q := by
  unfold resolveQuantity at h ⊢
  cases mode with
  | immediate =>
    dsimp only at h ⊢
    exact quantity_of_keeps keeps h
  | indexed =>
    dsimp only at h ⊢
    split at h
    · cases h
    · rename_i filled
      rw [if_neg filled]
      exact quantity_of_keeps keeps h
  | arithmetic =>
    dsimp only at h ⊢
    exact arithmetic_of_keeps keeps h
  | _ =>
    dsimp only at h ⊢
    exact symbol_of_keeps keeps h

/-! ### The three kinds of operand -/

/-- The mode of an operand column. -/
def modeOf (expression : String) : Mode := classify (Text.trim expression.toList)

/-- A constant, be it of the pool or not. -/
def IsConstant (expression : String) : Prop := ∃ kind, modeOf expression = .literal kind

/-- The text of an operand alone decides whether it is evaluated as a literal of the pool, as another
constant, or as no constant. -/
theorem resolve_cases (expression : String) :
    (∃ kind, modeOf expression = .literal kind ∧ ∀ symbols pool,
      resolve symbols pool expression = resolvePooled pool kind (Text.trim expression.toList)) ∨
    (IsConstant expression ∧ ∀ symbols pool, resolve symbols pool expression =
      (resolveConstant (Text.trim expression.toList)).map fun o => (o, pool)) ∨
    (¬ IsConstant expression ∧ ∀ symbols pool, resolve symbols pool expression =
      (resolveQuantity symbols (modeOf expression) (Text.trim expression.toList)).map fun q =>
        (ofQuantity (Text.trim expression.toList) (modeOf expression) q, pool)) := by
  unfold IsConstant resolve
  cases mode : modeOf expression with
  | literal kind =>
    rw [modeOf] at mode
    cases kind with
    | pooledNumber => exact Or.inl ⟨_, rfl, fun _ _ => by simp only [mode]⟩
    | pooledString => exact Or.inl ⟨_, rfl, fun _ _ => by simp only [mode]⟩
    | _ => exact Or.inr (Or.inl ⟨⟨_, rfl⟩, fun _ _ => by simp only [mode]⟩)
  | _ =>
    rw [modeOf] at mode
    exact Or.inr (Or.inr ⟨by simp, fun _ _ => by simp only [mode]⟩)

theorem resolvePooled_ok {pool pool' : LiteralPool} {kind : Literal.Kind} {text : List Char}
    {operand : Operand} (h : resolvePooled pool kind text = .ok (operand, pool')) :
    ∃ l, pool.register (String.ofList text) = .ok (l, pool') ∧
      operand = ⟨String.ofList text, .addressed (.literal kind), l.address.getD 0, false, l.bytes⟩ := by
  unfold resolvePooled at h
  cases registered : pool.register (String.ofList text) with
  | error e => simp [registered] at h
  | ok result =>
    obtain ⟨l, pool''⟩ := result
    simp only [registered, Except.ok.injEq, Prod.mk.injEq] at h
    obtain ⟨rfl, rfl⟩ := h
    exact ⟨l, rfl, rfl⟩

theorem resolvePooled_of_prefix {pool pool' later : LiteralPool} {kind : Literal.Kind}
    {text : List Char} {operand : Operand}
    (h : resolvePooled pool kind text = .ok (operand, pool'))
    (grown : pool'.literals <+: later.literals) :
    resolvePooled later kind text = .ok (operand, later) := by
  obtain ⟨l, registered, rfl⟩ := resolvePooled_ok h
  simp only [resolvePooled, LiteralPool.register_of_prefix registered grown]

/-- The result of a computation that does not look at the pool. -/
theorem map_pool_ok {α β : Type} {result : Except Error α} {f : α → β} {pool pool' : LiteralPool}
    {b : β} (h : (result.map fun a => (f a, pool)) = .ok (b, pool')) :
    pool' = pool ∧ ∃ a, result = .ok a ∧ b = f a := by
  cases result with
  | error e => cases h
  | ok a =>
    cases h
    exact ⟨rfl, a, rfl, rfl⟩

/-- An operand is quoted without its outer blanks. -/
theorem expression_of_resolve {pool pool' : LiteralPool} {expression : String} {o : Operand}
    (h : resolve symbols pool expression = .ok (o, pool')) :
    o.expression = Text.trimmed expression := by
  rcases resolve_cases expression with ⟨kind, _, eq⟩ | ⟨_, eq⟩ | ⟨_, eq⟩
  · rw [eq] at h
    obtain ⟨l, _, rfl⟩ := resolvePooled_ok h
    rfl
  · rw [eq] at h
    obtain ⟨_, constant, read, rfl⟩ := map_pool_ok h
    unfold resolveConstant at read
    split at read
    · cases read
    · cases read
      rfl
  · rw [eq] at h
    obtain ⟨_, q, _, rfl⟩ := map_pool_ok h
    rfl

/-- What an evaluation does to the pool: nothing, or one registration. -/
theorem registersTo_of_resolve {pool pool' : LiteralPool} {expression : String} {operand : Operand}
    (h : resolve symbols pool expression = .ok (operand, pool')) : pool.RegistersTo pool' := by
  rcases resolve_cases expression with ⟨kind, _, eq⟩ | ⟨_, eq⟩ | ⟨_, eq⟩
  · rw [eq] at h
    obtain ⟨l, registered, _⟩ := resolvePooled_ok h
    exact Or.inr ⟨_, l, registered⟩
  · rw [eq] at h
    exact Or.inl (map_pool_ok h).1
  · rw [eq] at h
    exact Or.inl (map_pool_ok h).1

/-- An operand with a value has it in all later tables too. -/
theorem resolve_of_keeps (keeps : symbols.Keeps symbols') {pool pool' later : LiteralPool}
    {expression : String} {operand : Operand}
    (h : resolve symbols pool expression = .ok (operand, pool'))
    (grown : pool'.literals <+: later.literals) :
    resolve symbols' later expression = .ok (operand, later) := by
  rcases resolve_cases expression with ⟨kind, _, eq⟩ | ⟨_, eq⟩ | ⟨_, eq⟩
  · rw [eq] at h ⊢
    exact resolvePooled_of_prefix h grown
  · rw [eq] at h ⊢
    obtain ⟨_, constant, read, rfl⟩ := map_pool_ok h
    rw [read]
    rfl
  · rw [eq] at h ⊢
    obtain ⟨_, q, valued, rfl⟩ := map_pool_ok h
    rw [resolveQuantity_of_keeps keeps valued]
    rfl

/-- An operand that is no constant leaves the pool alone, whatever becomes of it. -/
theorem pool_of_not_constant {expression : String} (other : ¬ IsConstant expression)
    {pool pool' : LiteralPool} {operand : Operand}
    (h : resolve symbols pool expression = .ok (operand, pool')) : pool' = pool := by
  rcases resolve_cases expression with ⟨kind, mode, _⟩ | ⟨constant, _⟩ | ⟨_, eq⟩
  · exact absurd ⟨kind, mode⟩ other
  · exact absurd constant other
  · rw [eq] at h
    exact (map_pool_ok h).1

/-- Only an operand that is no constant can want for a symbol. -/
theorem not_constant_of_undefinedSymbol {pool : LiteralPool} {expression name : String}
    (h : resolve symbols pool expression = .error (.undefinedSymbol name)) :
    ¬ IsConstant expression := by
  rcases resolve_cases expression with ⟨kind, _, eq⟩ | ⟨_, eq⟩ | ⟨other, _⟩
  · rw [eq, resolvePooled] at h
    split at h <;> cases h
  · rw [eq, resolveConstant] at h
    split at h <;> cases h
  · exact other

end SicXe.Operand
