import SicXe.Assembly.Attempt
import SicXe.Proofs.Operand.Bounds
import SicXe.Proofs.Operand.Pooled
import SicXe.Proofs.Operand.Registers

/-!
# Operand columns by their instruction

An instruction checks a list of names, packs a list of registers, or evaluates an expression. The lists
take no table (`evaluate_cases`), so what is known of evaluation holds of every operand column: it
comes out the same in tables that have grown, it registers at most one literal, the one that it uses
(`uses_of_evaluate`), and an operand that wants for a symbol is one that is evaluated and is no constant.
-/
namespace SicXe.Assembly

/-- A list of names or registers: it wants for no symbol, has a small value and no bytes, and is no
literal. -/
structure IsList (result : Except Error Operand) : Prop where
  wants_none : ∀ name, result ≠ .error (.undefinedSymbol name)
  fits : ∀ o, result = .ok o → Word.fits o.value = true
  no_bytes : ∀ o, result = .ok o → o.bytes = []
  no_literal : ∀ o, result = .ok o → o.literal? = none

theorem isList_registers (expression : String) : IsList (Operand.resolveRegisters expression) := by
  obtain ⟨result, reads⟩ := Operand.exists_readsRegisters expression
  rw [reads.resolveRegisters]
  cases reads with
  | @registers codes spelled few =>
    have bounds := Operand.packedCodes_bounds (Operand.le_of_spelled spelled)
    have fits : Word.fits (Operand.packedCodes codes) = true := by
      rw [Word.fits_iff]
      omega
    exact ⟨by simp, by rintro o ⟨⟩; exact fits, by rintro o ⟨⟩; rfl, by rintro o ⟨⟩; rfl⟩
  | tooMany many => exact ⟨by simp, by simp, by simp, by simp⟩
  | invalid few parts spelled unspelled => exact ⟨by simp, by simp, by simp, by simp⟩

theorem isList_names (expression : String) : IsList (Operand.resolveNames expression) := by
  dsimp only [Operand.resolveNames]
  split
  · exact ⟨by simp, by simp, by simp, by simp⟩
  · exact ⟨by simp, by rintro o ⟨⟩; exact (by decide : Word.fits 0 = true),
      by rintro o ⟨⟩; rfl, by rintro o ⟨⟩; rfl⟩

/-- An instruction reads a list, which takes no table, or evaluates. -/
theorem evaluate_cases (i : Instruction) (expression : String) :
    (∃ result, IsList result ∧ ∀ symbols pool,
      evaluate i symbols pool expression = result.map fun o => (o, pool)) ∨
    (∀ symbols pool, evaluate i symbols pool expression =
      Operand.resolve symbols pool expression) := by
  unfold evaluate
  split
  · exact Or.inl ⟨_, isList_names expression, fun _ _ => rfl⟩
  · exact Or.inl ⟨_, isList_names expression, fun _ _ => rfl⟩
  · exact Or.inl ⟨_, isList_registers expression, fun _ _ => rfl⟩
  · exact Or.inr fun _ _ => rfl

variable {symbols symbols' : SymbolTable} {pool pool' : LiteralPool} {i : Instruction}
  {expression : String} {operand : Operand}

theorem evaluate_of_keeps (keeps : symbols.Keeps symbols') {later : LiteralPool}
    (h : evaluate i symbols pool expression = .ok (operand, pool'))
    (grown : pool'.literals <+: later.literals) :
    evaluate i symbols' later expression = .ok (operand, later) := by
  rcases evaluate_cases i expression with ⟨result, _, eq⟩ | eq
  · rw [eq] at h ⊢
    obtain ⟨_, o, read, rfl⟩ := Operand.map_pool_ok h
    rw [read]
    rfl
  · rw [eq] at h ⊢
    exact Operand.resolve_of_keeps keeps h grown

theorem registersTo_of_evaluate (h : evaluate i symbols pool expression = .ok (operand, pool')) :
    pool.RegistersTo pool' := by
  rcases evaluate_cases i expression with ⟨result, _, eq⟩ | eq
  · rw [eq] at h
    exact Or.inl (Operand.map_pool_ok h).1
  · rw [eq] at h
    exact Operand.registersTo_of_resolve h

theorem uses_of_evaluate (h : evaluate i symbols pool expression = .ok (operand, pool')) :
    Operand.Uses pool operand pool' := by
  rcases evaluate_cases i expression with ⟨result, list, eq⟩ | eq
  · rw [eq] at h
    obtain ⟨rfl, o, read, rfl⟩ := Operand.map_pool_ok h
    exact .nothing (list.no_literal operand read)
  · rw [eq] at h
    exact Operand.uses_of_resolve h

theorem pool_of_evaluate (other : (Text.trim expression.toList).head? ≠ some '=')
    (h : evaluate i symbols pool expression = .ok (operand, pool')) : pool' = pool := by
  rcases evaluate_cases i expression with ⟨result, _, eq⟩ | eq
  · rw [eq] at h
    exact (Operand.map_pool_ok h).1
  · rw [eq] at h
    exact Operand.pool_of_no_equals other h

theorem fits_of_evaluate (wf : symbols.WellFormed) (counted : pool.WellFormed)
    (h : evaluate i symbols pool expression = .ok (operand, pool')) :
    Word.fits operand.value = true := by
  rcases evaluate_cases i expression with ⟨result, list, eq⟩ | eq
  · rw [eq] at h
    obtain ⟨_, o, read, rfl⟩ := Operand.map_pool_ok h
    exact list.fits operand read
  · rw [eq] at h
    exact Operand.fits_of_resolve wf counted h

theorem length_bytes_of_evaluate
    (h : evaluate i symbols pool expression = .ok (operand, pool')) :
    operand.bytes.length ≤ max 3 expression.length := by
  rcases evaluate_cases i expression with ⟨result, list, eq⟩ | eq
  · rw [eq] at h
    obtain ⟨_, o, read, rfl⟩ := Operand.map_pool_ok h
    rw [list.no_bytes operand read]
    exact Nat.zero_le _
  · rw [eq] at h
    exact Operand.length_bytes_of_resolve h

theorem isUndefinedSymbol_iff (e : Error) :
    e.isUndefinedSymbol = true ↔ ∃ name, e = .undefinedSymbol name := by
  cases e <;> simp [Error.isUndefinedSymbol]

/-- An operand that wants for a symbol is one that is evaluated, and no constant. -/
theorem evaluate_undefinedSymbol {name : String}
    (h : evaluate i symbols pool expression = .error (.undefinedSymbol name)) :
    (∀ symbols pool, evaluate i symbols pool expression =
      Operand.resolve symbols pool expression) ∧ ¬ Operand.IsConstant expression := by
  rcases evaluate_cases i expression with ⟨result, list, eq⟩ | eq
  · rw [eq] at h
    cases read : result with
    | error e =>
      rw [read] at h
      cases h
      exact absurd read (list.wants_none name)
    | ok o => simp [read, Except.map] at h
  · rw [eq] at h
    exact ⟨eq, Operand.not_constant_of_undefinedSymbol h⟩

end SicXe.Assembly
