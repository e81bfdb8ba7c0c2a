import SicXe.Proofs.Literal.Grammar
import SicXe.Proofs.Operand.Constants

/-!
# Evaluation follows the mode

The mode of an operand is found before it is evaluated. A constant is looked at twice: its marks announce
a kind, and the reader of literals finds one, perhaps under apostrophes that do not match; where both
get through, they agree (`kind_of_parse`). So the kind of an operand with a value is its mode, in all
tables, and only a literal of the pool adds to the pool, itself and nothing else (`resolve_follows_mode`).
-/
namespace SicXe

/-- One literal more, with bytes that are new to the pool, at the next address. -/
structure LiteralPool.Appends (pool : LiteralPool) (l : Literal) (pool' : LiteralPool) : Prop where
  new : ∀ former ∈ pool.literals, former.bytes ≠ l.bytes
  placed : l.address = some pool.nextAddress
  result : pool' = ⟨pool.literals ++ [l], Word.wrap (pool.nextAddress + 1)⟩

namespace Operand

/-- The pool after an evaluation. One that fails leaves the pool as it is. -/
def poolAfter (pool : LiteralPool) : Except Error (Operand × LiteralPool) → LiteralPool
  | .ok (_, pool') => pool'
  | .error _ => pool

variable {symbols : SymbolTable} {pool pool' : LiteralPool} {text : String} {kind : Literal.Kind}
  {o : Operand} {l : Literal}

theorem modeOf_eq_classify (text : String) : modeOf text = classify text.toList := by
  unfold modeOf classify
  rw [Text.trim_trim]

/-! ### Kinds and bytes -/

/-- A text that has the mode of a constant and reads as one has the kind that it reads as. -/
theorem kind_of_parse (mode : modeOf text = .literal kind) (parsed : Literal.parse text = .ok l) :
    l.kind = kind := by
  obtain ⟨whole, joined⟩ := classify_of_form (Literal.form_of_parse parsed).1 (Text.trim_trim _)
  by_cases signs : Joined (Text.trim text.toList)
  · cases (joined signs).symm.trans mode
  · cases (whole signs).symm.trans mode
    rfl

theorem bytes_of_parse (parsed : Literal.parse text = .ok l) : l.bytes ≠ [] :=
  (Literal.spells_of_form (Literal.form_of_parse parsed).1).filled

/-- Whether an operand has the kind of its mode, and bytes if it is a constant and only then. -/
structure Follows (mode : Mode) (o : Operand) : Prop where
  kind : o.kind = .addressed mode
  bytes : o.bytes ≠ [] ↔ ∃ kind, o.kind = .addressed (.literal kind)

theorem follows_of_resolvePooled (mode : modeOf text = .literal kind)
    (h : resolvePooled pool kind (Text.trim text.toList) = .ok (o, pool')) :
    Follows (modeOf text) o := by
  obtain ⟨l, registered, rfl⟩ := resolvePooled_ok h
  obtain ⟨parsed, read, bytes⟩ := LiteralPool.bytes_of_register registered
  rw [mode]
  refine ⟨rfl, fun _ => ⟨kind, rfl⟩, fun _ => ?_⟩
  rw [bytes]
  exact bytes_of_parse read

theorem follows_of_resolveConstant (mode : modeOf text = .literal kind)
    (unpooled : kind.isPooled = false)
    (h : resolveConstant (Text.trim text.toList) = .ok o) : Follows (modeOf text) o := by
  unfold resolveConstant at h
  rw [Literal.parse_trim] at h
  split at h
  · cases h
  · rename_i l parsed
    cases h
    rw [mode, kind_of_parse mode parsed, constantKind_of_unpooled unpooled]
    exact ⟨rfl, fun _ => ⟨_, rfl⟩, fun _ => bytes_of_parse parsed⟩

theorem follows_ofQuantity {mode : Mode} (other : ∀ kind, mode ≠ .literal kind) (text : List Char)
    (q : Quantity) : Follows mode (ofQuantity text mode q) where
  kind := rfl
  bytes := by
    constructor
    · exact fun filled => absurd rfl filled
    · rintro ⟨kind, same⟩
      cases same
      exact absurd rfl (other kind)

theorem follows_of_resolve (h : resolve symbols pool text = .ok (o, pool')) :
    Follows (modeOf text) o := by
  rcases resolve_cases text with ⟨kind, mode, eq⟩ | ⟨⟨kind, mode⟩, eq⟩ | ⟨other, eq⟩
  · rw [eq] at h
    exact follows_of_resolvePooled mode h
  · cases pooled : kind.isPooled with
    | true =>
      rw [resolve_of_pooled mode pooled] at h
      exact follows_of_resolvePooled mode h
    | false =>
      rw [eq] at h
      obtain ⟨_, _, read, rfl⟩ := map_pool_ok h
      exact follows_of_resolveConstant mode pooled read
  · rw [eq] at h
    obtain ⟨_, q, _, rfl⟩ := map_pool_ok h
    exact follows_ofQuantity (fun kind mode => other ⟨kind, mode⟩) _ q

/-! ### The pool -/

theorem isPooled_iff : kind.isPooled = true ↔ kind = .pooledNumber ∨ kind = .pooledString := by
  cases kind <;> simp [Literal.Kind.isPooled]

/-- The pool stays, or the operand is a literal of the pool and is added. -/
theorem appends_of_resolve (h : resolve symbols pool text = .ok (o, pool')) : pool' = pool ∨
    ∃ kind l, o.kind = .addressed (.literal kind) ∧ (kind = .pooledNumber ∨ kind = .pooledString) ∧
      pool.Appends l pool' := by
  cases uses_of_resolve h with
  | nothing => exact Or.inl rfl
  | known => exact Or.inl rfl
  | @new used uses absent value =>
    obtain ⟨kind, addressed, pooled, _⟩ := literal?_eq_some uses
    refine Or.inr ⟨kind, _, addressed, isPooled_iff.1 pooled, ?_, rfl, rfl⟩
    exact LiteralPool.get?_eq_none_iff.1 absent

/-- An operand with a value has the kind of its mode. It has bytes exactly if it is a constant. The pool
gets at most one literal, and only from an operand of the pool that has a value. A symbol that is not
defined is never wanted for by a constant. -/
theorem resolve_follows_mode (text : String) (symbols : SymbolTable) (pool : LiteralPool) :
    (∀ o pool', resolve symbols pool text = .ok (o, pool') →
      o.kind = .addressed (classify text.toList) ∧ o.expression = Text.trimmed text ∧
      (o.bytes ≠ [] ↔ ∃ kind, o.kind = .addressed (.literal kind))) ∧
    (poolAfter pool (resolve symbols pool text) = pool ∨
      ∃ o pool' kind l, resolve symbols pool text = .ok (o, pool') ∧
        o.kind = .addressed (.literal kind) ∧ (kind = .pooledNumber ∨ kind = .pooledString) ∧
        (Text.trim text.toList).head? = some '=' ∧
        pool.Appends l (poolAfter pool (resolve symbols pool text))) ∧
    (∀ name, resolve symbols pool text = .error (.undefinedSymbol name) →
      ∀ kind, classify text.toList ≠ .literal kind) ∧
    ∀ symbols' former o o' pool' former', resolve symbols pool text = .ok (o, pool') →
      resolve symbols' former text = .ok (o', former') → o'.kind = o.kind := by
  simp only [← modeOf_eq_classify]
  refine ⟨fun o pool' h => ?_, ?_, fun name wants kind mode => ?_, ?_⟩
  · have follows := follows_of_resolve h
    exact ⟨follows.kind, expression_of_resolve h, follows.bytes⟩
  · cases result : resolve symbols pool text with
    | error e => exact Or.inl rfl
    | ok valued =>
      obtain ⟨o, pool'⟩ := valued
      refine (appends_of_resolve result).imp_right ?_
      rintro ⟨kind, l, addressed, pooled, appends⟩
      have mode : modeOf text = .literal kind := by
        have same := (follows_of_resolve result).kind.symm.trans addressed
        injection same
      exact ⟨o, pool', kind, l, rfl, addressed, pooled,
        (isPooled_iff_of_mode mode).1 (isPooled_iff.2 pooled), appends⟩
  · exact not_constant_of_undefinedSymbol wants ⟨kind, mode⟩
  · intro symbols' former o o' pool' former' h h'
    exact (follows_of_resolve h').kind.trans (follows_of_resolve h).kind.symm

/-- A literal whose bytes are in the pool in another spelling, and one with two equals signs, which is
announced as a number and is none. -/
theorem resolve_follows_mode_spelled :
    let pool : LiteralPool := ⟨[⟨"=C'A'", .pooledString, [65], some 1⟩], 2⟩
    (∃ o, resolve .empty pool " =X'41' " = .ok (o, pool) ∧
      o.kind = .addressed (.literal .pooledNumber) ∧ o.bytes = [65]) ∧
    classify "==X'42'".toList = .literal .pooledNumber ∧
      poolAfter pool (resolve .empty pool "==X'42'") = pool := by
  intro pool
  have known : resolve .empty pool " =X'41' " = .ok (⟨"=X'41'", .addressed (.literal .pooledNumber), 1,
    false, [65]⟩, pool) := rfl
  have malformed : resolve .empty pool "==X'42'" = .error (.invalidLiteral ⟨"==X'42'"⟩) := rfl
  obtain ⟨kind, _, _⟩ := (resolve_follows_mode " =X'41' " .empty pool).1 _ _ known
  refine ⟨⟨_, known, kind, rfl⟩, by decide, ?_⟩
  rcases (resolve_follows_mode "==X'42'" .empty pool).2.1 with same | ⟨_, _, _, _, result, _⟩
  · exact same
  · rw [malformed] at result
    cases result

end Operand

end SicXe
