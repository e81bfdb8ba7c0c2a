import SicXe.Literal.Pool

/-!
# The literal pool as it grows

A registration answers with a literal of the pool or puts a new one at its end, and the same constant
gets the same literal from every pool that has grown out of this one (`register_of_prefix`). The
address counter is kept apart from the literals; that it always stands one past their number
(`WellFormed`) is what lets `truncate` give back a former pool with its counter
(`truncate_of_grows`).
-/
namespace SicXe.LiteralPool

theorem register_cases {p p' : LiteralPool} {expression : String} {l : Literal}
    (h : p.register expression = .ok (l, p')) :
    ∃ parsed, Literal.parse expression = .ok parsed ∧
      ((p.get? parsed.bytes = some l ∧ p' = p) ∨
        (p.get? parsed.bytes = none ∧ l = { parsed with address := some p.nextAddress } ∧
          p' = ⟨p.literals ++ [l], Word.wrap (p.nextAddress + 1)⟩)) := by
  unfold register at h
  cases read : Literal.parse expression with
  | error e => simp [read] at h
  | ok parsed =>
    refine ⟨parsed, rfl, ?_⟩
    cases found : p.get? parsed.bytes with
    | some known =>
      simp only [read, found, Except.ok.injEq, Prod.mk.injEq] at h
      exact Or.inl ⟨by rw [h.1], h.2.symm⟩
    | none =>
      simp only [read, found, Except.ok.injEq, Prod.mk.injEq] at h
      obtain ⟨rfl, rfl⟩ := h
      exact Or.inr ⟨rfl, rfl, rfl⟩

theorem get?_eq_none_iff {p : LiteralPool} {bytes : List UInt8} :
    p.get? bytes = none ↔ ∀ l ∈ p.literals, l.bytes ≠ bytes := by
  simp [get?, List.find?_eq_none]

/-- The literal that a registration answers with has the bytes of the constant. -/
theorem bytes_of_register {p p' : LiteralPool} {expression : String} {l : Literal}
    (h : p.register expression = .ok (l, p')) :
    ∃ parsed, Literal.parse expression = .ok parsed ∧ l.bytes = parsed.bytes := by
  obtain ⟨parsed, read, ⟨known, _⟩ | ⟨_, rfl, _⟩⟩ := register_cases h
  · exact ⟨parsed, read, by simpa using List.find?_some known⟩
  · exact ⟨parsed, read, rfl⟩

/-- A registered constant is found in the pool. -/
theorem get?_of_register {p p' : LiteralPool} {expression : String} {l : Literal}
    (h : p.register expression = .ok (l, p')) :
    ∃ parsed, Literal.parse expression = .ok parsed ∧ p'.get? parsed.bytes = some l := by
  obtain ⟨parsed, read, ⟨known, rfl⟩ | ⟨new, rfl, rfl⟩⟩ := register_cases h
  · exact ⟨parsed, read, known⟩
  · refine ⟨parsed, read, ?_⟩
    have none_before : p.literals.find? (·.bytes = parsed.bytes) = none := new
    simp [get?, List.find?_append, none_before]

/-- Whatever is read as a constant is registered. -/
theorem register_of_parse {text : String} {parsed : Literal} (parse : Literal.parse text = .ok parsed)
    (p : LiteralPool) : ∃ l p', p.register text = .ok (l, p') ∧ l.bytes = parsed.bytes ∧
      p'.get? parsed.bytes = some l := by
  obtain ⟨l, p', registered⟩ : ∃ l p', p.register text = .ok (l, p') := by
    unfold register
    rw [parse]
    dsimp only
    cases p.get? parsed.bytes with
    | some known => exact ⟨known, p, rfl⟩
    | none => exact ⟨_, _, rfl⟩
  obtain ⟨again, read, same⟩ := bytes_of_register registered
  obtain ⟨again', read', found⟩ := get?_of_register registered
  rw [parse] at read read'
  cases read
  cases read'
  exact ⟨l, p', registered, same, found⟩

/-- Registering a constant again, now or after the pool has grown, answers with the same literal and
changes nothing. -/
theorem register_of_prefix {p p' later : LiteralPool} {expression : String} {l : Literal}
    (h : p.register expression = .ok (l, p')) (grown : p'.literals <+: later.literals) :
    later.register expression = .ok (l, later) := by
  obtain ⟨parsed, read, found⟩ := get?_of_register h
  have kept : later.get? parsed.bytes = some l := List.IsPrefix.find?_eq_some grown found
  simp only [register, read, kept]

/-! ### Taking additions back -/

/-- `p'` has the literals of `p` and maybe further ones; without any the pools are one. -/
def Grows (p p' : LiteralPool) : Prop :=
  ∃ added, p'.literals = p.literals ++ added ∧ (added = [] → p' = p)

theorem Grows.refl (p : LiteralPool) : Grows p p := ⟨[], by simp, fun _ => rfl⟩

theorem Grows.trans {p p' p'' : LiteralPool} (first : Grows p p') (second : Grows p' p'') :
    Grows p p'' := by
  obtain ⟨added, extended, same⟩ := first
  obtain ⟨further, extended', same'⟩ := second
  refine ⟨added ++ further, by rw [extended', extended, List.append_assoc], fun nothing => ?_⟩
  obtain ⟨rfl, rfl⟩ := List.append_eq_nil_iff.1 nothing
  rw [same' rfl, same rfl]

theorem Grows.isPrefix {p p' : LiteralPool} (h : Grows p p') : p.literals <+: p'.literals := by
  obtain ⟨added, extended, _⟩ := h
  exact ⟨added, extended.symm⟩

theorem grows_of_register {p p' : LiteralPool} {expression : String} {l : Literal}
    (h : p.register expression = .ok (l, p')) : Grows p p' := by
  obtain ⟨_, _, ⟨_, rfl⟩ | ⟨_, _, rfl⟩⟩ := register_cases h
  · exact Grows.refl p'
  · exact ⟨[l], rfl, by simp⟩

/-- The counter stands one past the literals, which are numbered from one in their order. -/
structure WellFormed (p : LiteralPool) : Prop where
  counted : p.nextAddress = Word.wrap (p.size + 1)
  numbered : ∀ {i : Nat} {l : Literal}, p.literals[i]? = some l → l.address = some (Word.wrap (i + 1))

theorem wellFormed_empty : WellFormed empty where
  counted := by decide
  numbered := by simp [empty]

theorem WellFormed.register {p p' : LiteralPool} (wf : WellFormed p) {expression : String}
    {l : Literal} (h : p.register expression = .ok (l, p')) : WellFormed p' := by
  obtain ⟨parsed, _, ⟨_, rfl⟩ | ⟨_, rfl, rfl⟩⟩ := register_cases h
  · exact wf
  · constructor
    · rw [wf.counted, Word.wrap_wrap_add]
      simp [size]
    · intro i l found
      simp only [List.getElem?_append, List.getElem?_singleton] at found
      split at found
      · exact wf.numbered found
      · rename_i beyond
        split at found
        · rename_i last
          cases found
          have place : i = p.size := by
            unfold size
            omega
          rw [wf.counted, place]
        · cases found

/-- `p'` is `p`, or what a registration makes of it. -/
def RegistersTo (p p' : LiteralPool) : Prop :=
  p' = p ∨ ∃ expression l, p.register expression = .ok (l, p')

theorem RegistersTo.grows {p p' : LiteralPool} (h : p.RegistersTo p') : p.Grows p' := by
  rcases h with rfl | ⟨expression, l, registered⟩
  · exact Grows.refl p'
  · exact grows_of_register registered

theorem RegistersTo.wellFormed {p p' : LiteralPool} (h : p.RegistersTo p') (wf : p.WellFormed) :
    p'.WellFormed := by
  rcases h with rfl | ⟨expression, l, registered⟩
  · exact wf
  · exact wf.register registered

theorem WellFormed.address_of_mem {p : LiteralPool} (wf : WellFormed p) {l : Literal}
    (member : l ∈ p.literals) : ∃ i : Nat, l.address = some (Word.wrap (i + 1)) := by
  obtain ⟨i, found⟩ := List.mem_iff_getElem?.1 member
  exact ⟨i, wf.numbered found⟩

theorem WellFormed.address_fits {p : LiteralPool} (wf : WellFormed p) {l : Literal}
    (member : l ∈ p.literals) : Word.fits (l.address.getD 0) = true := by
  obtain ⟨i, address⟩ := wf.address_of_mem member
  rw [address, Option.getD_some]
  exact Word.fits_wrap _

/-! ### Addresses -/

/-- The addresses are the places of the literals, from one on. -/
def Numbered (p : LiteralPool) : Prop :=
  ∀ (i : Nat) (l : Literal), p.literals[i]? = some l → l.address = some (i + 1 : Int)

/-- Literals of such a pool have the same address exactly if they were asked for by the same bytes. -/
theorem Numbered.address_eq_iff {p : LiteralPool} (numbered : p.Numbered) {bytes bytes' : List UInt8}
    {l l' : Literal} (found : p.get? bytes = some l) (found' : p.get? bytes' = some l') :
    l.address = l'.address ↔ bytes = bytes' := by
  constructor
  · intro same_address
    obtain ⟨i, here⟩ := List.mem_iff_getElem?.1 (List.mem_of_find?_eq_some found)
    obtain ⟨j, here'⟩ := List.mem_iff_getElem?.1 (List.mem_of_find?_eq_some found')
    rw [numbered i l here, numbered j l' here', Option.some.injEq] at same_address
    have same_place : i = j := by omega
    rw [same_place, here'] at here
    cases here
    have has : l.bytes = bytes := by simpa using List.find?_some found
    have has' : l.bytes = bytes' := by simpa using List.find?_some found'
    exact has.symm.trans has'
  · rintro rfl
    cases found.symm.trans found'
    rfl

/-- The counter has not come round in a pool with fewer literals than there are addresses. -/
theorem WellFormed.nextAddress_eq {p : LiteralPool} (wf : WellFormed p) (few : p.size < 2147483647) :
    p.nextAddress = p.size + 1 := by
  rw [wf.counted]
  exact Word.wrap_of_fits (Word.fits_iff.2 (by omega))

theorem WellFormed.isNumbered {p : LiteralPool} (wf : WellFormed p) (few : p.size < 2147483647) :
    p.Numbered := by
  intro i l here
  have inside : i < p.size := (List.getElem?_eq_some_iff.1 here).1
  rw [wf.numbered here, Word.wrap_of_fits (Word.fits_iff.2 (by omega))]

/-- A pool that has grown is cut back to what it was, counter and all. -/
theorem truncate_of_grows {p p' : LiteralPool} (wf : WellFormed p) (h : Grows p p') :
    p'.truncate p.size = p := by
  obtain ⟨added, extended, same⟩ := h
  cases added with
  | nil =>
    rw [same rfl]
    exact truncate_size p
  | cons first rest =>
    have longer : p.size < p'.size := by simp [size, extended]
    rw [truncate, if_pos longer, extended, ← wf.counted]
    simp [size]

end SicXe.LiteralPool
