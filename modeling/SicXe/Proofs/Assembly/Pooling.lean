import SicXe.Proofs.Assembly.Settle

/-!
# What is in the pool at the end

The pool holds the literals that the resolved lines use, each at the place of its first use
(`LiteralPool.Serves`). An operand is looked at once, when its line is resolved: that adds its literal or
finds it (`Serves.concat`), a line that fails takes it back, and an operand that waits is no literal, so
that settling uses none. As long as the address counter has not come round, the addresses are the places
in the pool, and operands have the same value exactly if they have the same bytes (`run_pools`).
-/
namespace SicXe

/-! ### First uses -/

/-- The literals that operands use, each once and in the order of their first uses. -/
def firstUses (operands : List Operand) : List Literal :=
  (operands.filterMap Operand.literal?).eraseDupsBy Literal.same

theorem Operand.bytes_of_literal? {o : Operand} {used : Literal} (h : o.literal? = some used) :
    used.bytes = o.bytes ∧ used.address = none := by
  obtain ⟨_, _, _, rfl⟩ := literal?_eq_some h
  exact ⟨rfl, rfl⟩

/-! ### A pool and the operands that use it -/

namespace LiteralPool

/-- The pool of these operands: it has their literals in the order of first use, and every operand that
uses a literal has its address. -/
structure Serves (p : LiteralPool) (operands : List Operand) : Prop where
  literals : (p.literals.map fun l => { l with address := none }) = firstUses operands
  value : ∀ o ∈ operands, o.literal?.isSome = true →
    ∃ l, p.get? o.bytes = some l ∧ o.value = l.address.getD 0

theorem serves_empty : Serves empty [] where
  literals := rfl
  value := fun _ member => nomatch member

theorem Serves.any_same {p : LiteralPool} {operands : List Operand} (serves : p.Serves operands)
    (used : Literal) : (firstUses operands).any used.same = (p.get? used.bytes).isSome := by
  rw [← serves.literals, List.any_map, get?, Bool.eq_iff_iff, List.any_eq_true, List.find?_isSome]
  simp only [Function.comp_apply, Literal.same, eq_comm]

theorem Serves.concat {p p' : LiteralPool} {operands : List Operand} {o : Operand}
    (serves : p.Serves operands) (uses : o.Uses p p') : p'.Serves (operands ++ [o]) := by
  have held := serves.any_same
  have before := serves.literals
  unfold firstUses at held before
  cases uses with
  | nothing unused =>
    constructor
    · rw [before]
      simp [firstUses, unused]
    · intro other member pooled
      rw [List.mem_append, List.mem_singleton] at member
      rcases member with former | rfl
      · exact serves.value other former pooled
      · rw [unused] at pooled
        cases pooled
  | @known used l uses found value =>
    obtain ⟨bytes, _⟩ := Operand.bytes_of_literal? uses
    constructor
    · rw [before, firstUses, List.filterMap_append, List.filterMap_cons_some uses, List.filterMap_nil,
        eraseDupsBy_concat, held, found]
      rfl
    · intro other member pooled
      rw [List.mem_append, List.mem_singleton] at member
      rcases member with former | rfl
      · exact serves.value other former pooled
      · exact ⟨l, bytes ▸ found, value⟩
  | @new used uses absent value =>
    obtain ⟨bytes, unplaced⟩ := Operand.bytes_of_literal? uses
    constructor
    · have plain : { used with address := none } = used := by rw [← unplaced]
      rw [firstUses, List.filterMap_append, List.filterMap_cons_some uses, List.filterMap_nil,
        eraseDupsBy_concat, held, absent, List.map_append, before, List.map_singleton, plain]
      rfl
    · intro other member pooled
      rw [List.mem_append, List.mem_singleton] at member
      rcases member with former | rfl
      · obtain ⟨l, found, value⟩ := serves.value other former pooled
        exact ⟨l, List.IsPrefix.find?_eq_some (List.prefix_append ..) found, value⟩
      · have none_before : p.literals.find? (·.bytes = other.bytes) = none := bytes ▸ absent
        refine ⟨{ used with address := some p.nextAddress }, ?_, value⟩
        simp [get?, List.find?_append, none_before, bytes]

/-- The pool that has these literals and no other, in this order and with the addresses from one on. -/
def numbered (literals : List Literal) : LiteralPool :=
  ⟨literals.mapIdx fun i l => { l with address := some (i + 1 : Int) }, literals.length + 1⟩

/-- Literals found in it have the same address exactly if they were asked for by the same bytes. -/
theorem address_eq_iff {literals : List Literal} {bytes bytes' : List UInt8} {l l' : Literal}
    (found : (numbered literals).get? bytes = some l)
    (found' : (numbered literals).get? bytes' = some l') :
    l.address = l'.address ↔ bytes = bytes' := by
  refine Numbered.address_eq_iff (fun i l here => ?_) found found'
  rw [numbered, List.getElem?_mapIdx] at here
  obtain ⟨plain, _, rfl⟩ := Option.map_eq_some_iff.1 here
  rfl

/-- With fewer literals than there are addresses, a pool is known from the operands that use it. -/
theorem Serves.eq_numbered {p : LiteralPool} {operands : List Operand} (serves : p.Serves operands)
    (wf : p.WellFormed) (few : (firstUses operands).length < 2147483647) :
    p = numbered (firstUses operands) := by
  have size : p.literals.length = (firstUses operands).length := by
    rw [← serves.literals, List.length_map]
  rw [← size] at few
  have counted : p.nextAddress = (firstUses operands).length + 1 := by
    rw [wf.nextAddress_eq few, LiteralPool.size, size]
  have literals : p.literals =
      (firstUses operands).mapIdx fun i l => { l with address := some (i + 1 : Int) } := by
    refine List.ext_getElem? fun i => ?_
    rw [List.getElem?_mapIdx, ← serves.literals, List.getElem?_map]
    cases found : p.literals[i]? with
    | none => rfl
    | some l =>
      simp only [Option.map_some, ← wf.isNumbered few i l found]
  obtain ⟨held, next⟩ := p
  rw [numbered, ← literals, ← counted]

theorem Serves.address {p : LiteralPool} {operands : List Operand} (serves : p.Serves operands)
    (wf : p.WellFormed) {o : Operand} (member : o ∈ operands) (pooled : o.literal?.isSome = true) :
    ∃ l, p.get? o.bytes = some l ∧ l.address = some o.value := by
  obtain ⟨l, found, value⟩ := serves.value o member pooled
  obtain ⟨i, here⟩ := List.mem_iff_getElem?.1 (List.mem_of_find?_eq_some found)
  have address := wf.numbered here
  refine ⟨l, found, ?_⟩
  rw [value, address, Option.getD_some]

end LiteralPool

/-! ### Runs -/

namespace Assembly

/-- The evaluated operands of lines, in order. -/
def operandsOf (ls : List ResolvedLine) : List Operand := ls.filterMap (·.operand)

def Program.operands (p : Program) : List Operand := operandsOf p.resolved

theorem operandsOf_concat (ls : List ResolvedLine) (l : ResolvedLine) :
    operandsOf (ls ++ [l]) = operandsOf ls ++ l.operand.toList := by
  rw [operandsOf, List.filterMap_append, operandsOf]
  cases operand : l.operand with
  | none => rw [List.filterMap_cons_none operand]; rfl
  | some o => rw [List.filterMap_cons_some operand]; rfl

theorem serves_of_read {i : Instruction} {symbols : SymbolTable} {pool pool' : LiteralPool}
    {operands : List Operand} {column deferred : Option String} {operand : Option Operand}
    (serves : pool.Serves operands) (read : OperandRead i symbols pool column operand deferred pool') :
    pool'.Serves (operands ++ operand.toList) := by
  cases read with
  | absent => simpa using serves
  | deferred => simpa using serves
  | evaluated value => exact serves.concat (uses_of_evaluate value)

/-- How the pool of a program and the operands of its lines belong together. -/
structure Program.Pools (p : Program) : Prop where
  pool : p.pool = .numbered (firstUses p.operands)
  value : ∀ o ∈ p.operands, o.literal?.isSome = true →
    ∃ l, p.pool.get? o.bytes = some l ∧ l.address = some o.value
  value_eq_iff : ∀ o ∈ p.operands, ∀ o' ∈ p.operands, o.literal?.isSome = true →
    o'.literal?.isSome = true → (o.value = o'.value ↔ o.bytes = o'.bytes)

namespace Assembler

variable {catalog : Catalog} {seeded : SymbolTable} {policy : Policy} {a : Assembler}

theorem Reachable.serves (built : seeded.Built) (reached : Reachable catalog seeded policy a) :
    a.tables.pool.Serves (operandsOf a.resolved) := by
  refine reached.invariant (motive := fun a => a.tables.pool.Serves (operandsOf a.resolved)) built
    LiteralPool.serves_empty ?_
  intro a line text answer after _ steps serves
  rcases steps.resolved_or_kept with ⟨s, l, next, _, resolution, _, extended⟩ | ⟨_, same, kept⟩
  · rw [extended, operandsOf_concat]
    exact serves_of_read serves resolution.operand
  · rw [same, kept]
    exact serves

/-- Settling gives a value to operands that are no literals, and leaves all others. -/
theorem operand_settled {symbols : SymbolTable} {pool : LiteralPool} {l : ResolvedLine}
    {column : Option String} (h : Column symbols pool l column) :
    (settled symbols pool l).operand = l.operand ∨
      (l.operand = none ∧ ∃ o, (settled symbols pool l).operand = some o ∧ o.literal? = none) := by
  cases h with
  | absent operand deferred =>
    rw [settled_of_done deferred]
    exact Or.inl rfl
  | evaluated operand deferred value =>
    rw [settled_of_done deferred]
    exact Or.inl rfl
  | @waiting expression operand deferred sized evaluates not_constant =>
    cases valued : Operand.resolve symbols pool expression with
    | error e =>
      rw [settled_of_fails deferred valued]
      exact Or.inl rfl
    | ok result =>
      rw [settled_of_value deferred valued]
      exact Or.inr ⟨operand, result.1, rfl,
        Operand.literal?_of_not_constant not_constant valued⟩

/-- The operands that use literals are those of before the settling. -/
theorem literals_settled {symbols : SymbolTable} {pool : LiteralPool} {ls : List ResolvedLine}
    (columns : ∀ l ∈ ls, ∃ column, Column symbols pool l column) :
    (operandsOf (ls.map (settled symbols pool))).filter (·.literal?.isSome) =
      (operandsOf ls).filter (·.literal?.isSome) := by
  induction ls with
  | nil => rfl
  | cons l rest ih =>
    obtain ⟨column, h⟩ := columns l (List.mem_cons_self ..)
    have later := ih fun m member => columns m (List.mem_cons_of_mem _ member)
    unfold operandsOf at later ⊢
    rcases operand_settled h with same | ⟨missing, o, got, no_literal⟩
    · rw [List.map_cons, List.filterMap_cons, List.filterMap_cons, same]
      cases l.operand with
      | none => exact later
      | some o => simp only [List.filter_cons, later]
    · rw [List.map_cons, List.filterMap_cons_some got, List.filterMap_cons_none missing,
        List.filter_cons_of_neg (by simp [no_literal]), later]

theorem firstUses_filter (operands : List Operand) :
    firstUses (operands.filter (·.literal?.isSome)) = firstUses operands := by
  unfold firstUses
  rw [List.filterMap_filter]
  congr 2
  funext o
  cases o.literal? <;> rfl

/-- As long as addresses last, the pool of a program has the literals that its lines use, in the order of
their first uses and numbered from one, and the operands that use them have their addresses. -/
theorem run_pools (built : seeded.Built) (policy : Policy) (lines : List String)
    (few : (firstUses ((new catalog seeded policy).run lines).operands).length < 2147483647) :
    ((new catalog seeded policy).run lines).Pools := by
  have reached := reachable_run catalog seeded policy lines
  rw [run_eq] at few ⊢
  generalize (new catalog seeded policy).stepAll 1 lines = result at few reached ⊢
  obtain ⟨a, halted⟩ := result
  have serves := reached.serves built
  have wf := (reached.wellFormed built).pool
  have pool : (a.finish halted).pool = a.tables.pool := by rw [finish_eq built reached]
  have same : (a.finish halted).operands.filter (·.literal?.isSome) =
      (operandsOf a.resolved).filter (·.literal?.isSome) := by
    rw [Program.operands, resolved_finish built reached]
    exact literals_settled (reached.columns built)
  have uses : firstUses (a.finish halted).operands = firstUses (operandsOf a.resolved) := by
    rw [← firstUses_filter, same, firstUses_filter]
  have numbered : (a.finish halted).pool = .numbered (firstUses (a.finish halted).operands) := by
    rw [uses] at few
    rw [pool, uses]
    exact serves.eq_numbered wf few
  have value : ∀ o ∈ (a.finish halted).operands, o.literal?.isSome = true →
      ∃ l, (a.finish halted).pool.get? o.bytes = some l ∧ l.address = some o.value := by
    intro o member pooled
    have former : o ∈ (operandsOf a.resolved).filter (·.literal?.isSome) :=
      same ▸ List.mem_filter.2 ⟨member, pooled⟩
    rw [pool]
    exact serves.address wf (List.mem_filter.1 former).1 pooled
  refine ⟨numbered, value, fun o member o' member' pooled pooled' => ?_⟩
  obtain ⟨l, found, placed⟩ := value o member pooled
  obtain ⟨l', found', placed'⟩ := value o' member' pooled'
  rw [numbered] at found found'
  have same_address := LiteralPool.address_eq_iff found found'
  rw [placed, placed', Option.some.injEq] at same_address
  exact same_address

/-- Two ways to write one byte, a line that is stepped over, a constant that is not pooled, and a second
literal. -/
theorem run_pools_twice :
    let p := (new .empty .empty .recover).run
      ["A WORD =C'A'", "WORD =X'41'", "1B WORD =C'Z'", "WORD C'Y'", "WORD =X'0102'"]
    p.pool.literals =
      [⟨"=C'A'", .pooledString, [65], some 1⟩, ⟨"=X'0102'", .pooledNumber, [1, 2], some 2⟩] ∧
    p.operands.map Operand.value = [1, 1, 89, 2] ∧ p.Pools := by
  refine ⟨rfl, rfl, run_pools .empty .recover _ ?_⟩
  decide

end Assembler

end Assembly

end SicXe
