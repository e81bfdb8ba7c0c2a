import SicXe.Proofs.Keys
import SicXe.Proofs.Literal.Form
import SicXe.Proofs.Literal.Pool

/-!
# The literal pool after any calls

A pool may register constants, only read them, and be cut back, in any order and with failures in between
(`Call`, `after`). Whatever was called, its literals are the constants that they are written as, with
different bytes, and the counter follows their number (`Lawful`). So a pool is determined by its list of
literals, and registering again what was cut off puts it back (`register_dropped`). What a call does to it
is `calls_law`.
-/
namespace SicXe.LiteralPool

/-- The calls of a pool: to register a constant, to read one without a place for it, and to keep the first
literals only. -/
inductive Call where
  | register (text : String)
  | parse (text : String)
  | truncate (size : Nat)
  deriving DecidableEq, Repr

/-- What a call answers: a literal, why there is none, or nothing. -/
inductive Answer where
  | literal (l : Literal)
  | failure (e : Literal.Error)
  | done
  deriving DecidableEq, Repr

def call (p : LiteralPool) : Call → Answer × LiteralPool
  | .register text =>
    match p.register text with
    | .ok (l, p') => (.literal l, p')
    | .error e => (.failure e, p)
  | .parse text =>
    match Literal.parse text with
    | .ok l => (.literal l, p)
    | .error e => (.failure e, p)
  | .truncate size => (.done, p.truncate size)

/-- The pool after calls in their order. -/
def after (p : LiteralPool) (calls : List Call) : LiteralPool :=
  calls.foldl (fun p c => (p.call c).2) p

/-- The answers to calls in their order. -/
def answers (p : LiteralPool) : List Call → List Answer
  | [] => []
  | c :: rest => (p.call c).1 :: (p.call c).2.answers rest

variable {p p' : LiteralPool} {text : String} {parsed : Literal} {calls : List Call}

/-! ### Single registrations -/

theorem register_known (parse : Literal.parse text = .ok parsed) {l : Literal}
    (found : p.get? parsed.bytes = some l) : p.call (.register text) = (.literal l, p) := by
  simp only [call, register, parse, found]

theorem register_new (parse : Literal.parse text = .ok parsed)
    (absent : p.get? parsed.bytes = none) :
    p.call (.register text) = (.literal { parsed with address := some p.nextAddress },
      ⟨p.literals ++ [{ parsed with address := some p.nextAddress }],
        Word.wrap (p.nextAddress + 1)⟩) := by
  simp only [call, register, parse, absent]

theorem register_malformed {e : Literal.Error} (malformed : Literal.parse text = .error e) :
    p.call (.register text) = (.failure e, p) := by
  simp only [call, register, malformed]

theorem call_parse (text : String) : (p.call (.parse text)).2 = p := by
  unfold call
  dsimp only
  split <;> rfl

/-! ### Lawful pools -/

/-- The counter follows the literals, each is the constant that it is written as, and no two have the same
bytes. -/
structure Lawful (p : LiteralPool) : Prop extends WellFormed p where
  distinct : p.literals.Pairwise fun a b => a.bytes ≠ b.bytes
  written : ∀ l ∈ p.literals, Literal.parse l.expression = .ok { l with address := none }

theorem lawful_empty : Lawful empty where
  toWellFormed := wellFormed_empty
  distinct := List.Pairwise.nil
  written := fun _ member => nomatch member

/-- A literal of the pool is the only one with its bytes. -/
theorem Lawful.get?_of_mem (lawful : p.Lawful) {l : Literal} (member : l ∈ p.literals) :
    p.get? l.bytes = some l :=
  (find?_eq_some_iff_of_nodup (List.pairwise_map.2 lawful.distinct)).2 ⟨member, rfl⟩

theorem Lawful.call_register (lawful : p.Lawful) (text : String) :
    (p.call (.register text)).2.Lawful := by
  cases parse : Literal.parse text with
  | error e =>
    rw [register_malformed parse]
    exact lawful
  | ok parsed =>
    cases found : p.get? parsed.bytes with
    | some l =>
      rw [register_known parse found]
      exact lawful
    | none =>
      have registered : p.register text = .ok ({ parsed with address := some p.nextAddress },
          (p.call (.register text)).2) := by
        simp only [call, register, parse, found]
      refine ⟨lawful.toWellFormed.register registered, ?_, ?_⟩
      · rw [register_new parse found, List.pairwise_append]
        refine ⟨lawful.distinct, List.pairwise_singleton _ _, fun l member new last => ?_⟩
        rw [List.mem_singleton.1 last]
        exact get?_eq_none_iff.1 found l member
      · intro l member
        rw [register_new parse found] at member
        rcases List.mem_append.1 member with former | last
        · exact lawful.written l former
        · -- The text of a constant is what was read, without its outer blanks.
          obtain ⟨_, same⟩ := Literal.form_of_parse parse
          have again := Literal.parse_trim text
          rw [List.mem_singleton.1 last, same]
          rw [parse, same] at again
          exact again

theorem Lawful.registersTo (lawful : p.Lawful) (registers : p.RegistersTo p') : p'.Lawful := by
  rcases registers with rfl | ⟨text, l, registered⟩
  · exact lawful
  · have called := lawful.call_register text
    simp only [call, registered] at called
    exact called

/-- The pool that has these literals, its counter behind them. -/
def ofLiterals (literals : List Literal) : LiteralPool :=
  ⟨literals, Word.wrap (literals.length + 1)⟩

@[simp] theorem literals_ofLiterals (literals : List Literal) :
    (ofLiterals literals).literals = literals := rfl

theorem WellFormed.eq_ofLiterals (wf : p.WellFormed) : p = ofLiterals p.literals := by
  rw [ofLiterals, ← size, ← wf.counted]

theorem truncate_eq (wf : p.WellFormed) (n : Nat) : p.truncate n = ofLiterals (p.literals.take n) := by
  unfold truncate
  split
  · rename_i fewer
    have length : (p.literals.take n).length = n := by
      rw [List.length_take]
      exact Nat.min_eq_left (Nat.le_of_lt fewer)
    rw [ofLiterals, length]
  · rename_i all
    rw [List.take_of_length_le (Nat.le_of_not_lt all)]
    exact wf.eq_ofLiterals

/-- The first literals of a lawful pool make a lawful pool. -/
theorem Lawful.of_prefix (lawful : p.Lawful) {literals : List Literal}
    (first : literals <+: p.literals) : (ofLiterals literals).Lawful where
  counted := by rw [ofLiterals, size]
  numbered {i l} here := by
    obtain ⟨more, whole⟩ := first
    refine lawful.numbered (i := i) ?_
    rw [literals_ofLiterals] at here
    rw [← whole, List.getElem?_append_left (List.getElem?_eq_some_iff.1 here).1]
    exact here
  distinct := lawful.distinct.sublist first.sublist
  written l member := lawful.written l (first.subset member)

theorem Lawful.call (lawful : p.Lawful) (c : Call) : (p.call c).2.Lawful := by
  cases c with
  | register text => exact lawful.call_register text
  | parse text =>
    rw [call_parse]
    exact lawful
  | truncate n =>
    change (p.truncate n).Lawful
    rw [truncate_eq lawful.toWellFormed]
    exact lawful.of_prefix (List.take_prefix n _)

theorem Lawful.after (lawful : p.Lawful) (calls : List Call) : (p.after calls).Lawful := by
  induction calls generalizing p with
  | nil => exact lawful
  | cons c rest ih => exact ih (lawful.call c)

/-! ### Registering again -/

/-- Texts of the last literals put them back behind the first ones. -/
theorem register_dropped (literals dropped : List Literal)
    (lawful : (ofLiterals (literals ++ dropped)).Lawful) {texts : List String}
    (same : texts.map Text.trimmed = dropped.map fun l => Text.trimmed l.expression) :
    (ofLiterals literals).answers (texts.map .register) = dropped.map .literal ∧
      (ofLiterals literals).after (texts.map .register) = ofLiterals (literals ++ dropped) := by
  induction dropped generalizing literals texts with
  | nil =>
    obtain rfl := List.map_eq_nil_iff.1 same
    exact ⟨rfl, by rw [List.append_nil]; rfl⟩
  | cons l rest ih =>
    obtain ⟨text, texts, rfl, written, others⟩ := List.map_eq_cons_iff.1 same
    have parse : Literal.parse text = .ok { l with address := none } := by
      rw [← Literal.parse_trim text, ← Text.trimmed, written]
      exact (Literal.parse_trim _).trans (lawful.written l (by simp))
    have absent : (ofLiterals literals).get? l.bytes = none := by
      refine get?_eq_none_iff.2 fun former member => ?_
      exact (List.pairwise_append.1 lawful.distinct).2.2 former member l List.mem_cons_self
    -- The counter stands where it stood when the literal was first registered.
    have address : l.address = some (ofLiterals literals).nextAddress := by
      have here : (ofLiterals (literals ++ l :: rest)).literals[literals.length]? = some l := by simp
      rw [ofLiterals, lawful.numbered here]
    have registered : (ofLiterals literals).call (.register text) =
        (.literal l, ofLiterals (literals ++ [l])) := by
      have counter : Word.wrap ((ofLiterals literals).nextAddress + 1) =
          Word.wrap (((literals ++ [l]).length : Int) + 1) := by
        rw [ofLiterals, Word.wrap_wrap_add, List.length_append, Int.natCast_add]
        exact rfl
      rw [register_new parse absent, ← address, counter, literals_ofLiterals, ofLiterals]
    rw [List.append_cons] at lawful ⊢
    obtain ⟨answered, restored⟩ := ih (literals ++ [l]) lawful others
    simp only [List.map_cons, answers, after, List.foldl_cons, registered]
    exact ⟨by rw [answered], restored⟩

/-! ### The law of calls -/

/-- What a registration answers, and what it makes of the pool. -/
structure Registers (p : LiteralPool) (text : String) : Prop where
  known : ∀ parsed, Literal.parse text = .ok parsed → ∀ l ∈ p.literals, l.bytes = parsed.bytes →
    p.call (.register text) = (.literal l, p)
  new : ∀ parsed, Literal.parse text = .ok parsed → (∀ l ∈ p.literals, l.bytes ≠ parsed.bytes) →
    p.call (.register text) = (.literal { parsed with address := some (p.size + 1 : Int) },
      ofLiterals (p.literals ++ [{ parsed with address := some (p.size + 1 : Int) }]))
  malformed : ∀ e, Literal.parse text = .error e → p.call (.register text) = (.failure e, p)

/-- What is left of a pool that is cut back, and how the rest is put back: by the texts of the literals,
whatever blanks stand around them. -/
structure Truncates (p : LiteralPool) (n : Nat) : Prop where
  kept : p.call (.truncate n) = (.done, ⟨p.literals.take n, (min n p.size : Nat) + 1⟩)
  restored : ∀ texts : List String,
    (texts.map Text.trimmed = (p.literals.drop n).map fun l => Text.trimmed l.expression) →
      (p.call (.truncate n)).2.answers (texts.map .register) = (p.literals.drop n).map .literal ∧
        (p.call (.truncate n)).2.after (texts.map .register) = p

/-- As long as nothing is cut off, constants are told apart by their addresses. -/
def TellsApart (p : LiteralPool) : Prop :=
  ∀ (a b : String) (x y : Literal) (between : List Call), Literal.parse a = .ok x →
    Literal.parse b = .ok y → (∀ n, .truncate n ∉ between) →
    (p.after (.register a :: between ++ [.register b])).size < 2147483647 →
      ∃ l m, (p.call (.register a)).1 = .literal l ∧
        ((p.after (.register a :: between)).call (.register b)).1 = .literal m ∧
        (l.address = m.address ↔ x.bytes = y.bytes)

theorem Lawful.registers (lawful : p.Lawful) (few : p.size < 2147483647) (text : String) :
    p.Registers text where
  known parsed parse l member same := by
    refine register_known parse ?_
    rw [← same]
    exact lawful.get?_of_mem member
  new parsed parse absent := by
    have next := lawful.nextAddress_eq few
    rw [register_new parse (get?_eq_none_iff.2 absent), next, ofLiterals, List.length_append,
      Int.natCast_add]
    exact rfl
  malformed e malformed := register_malformed malformed

theorem Lawful.truncates (lawful : p.Lawful) (few : p.size < 2147483647) (n : Nat) :
    p.Truncates n where
  kept := by
    have shorter : min n p.size ≤ p.size := Nat.min_le_right _ _
    have cut := truncate_eq lawful.toWellFormed n
    rw [ofLiterals, List.length_take, ← size,
      Word.wrap_of_fits (Word.fits_iff.2 (by omega))] at cut
    rw [← cut]
    rfl
  restored texts same := by
    have whole : ofLiterals (p.literals.take n ++ p.literals.drop n) = p := by
      rw [List.take_append_drop, ← lawful.eq_ofLiterals]
    have back := register_dropped (p.literals.take n) (p.literals.drop n) (by rwa [whole]) same
    rw [whole, ← truncate_eq lawful.toWellFormed] at back
    exact back

/-- A pool that is not cut back keeps its literals. -/
theorem isPrefix_after (kept : ∀ n, .truncate n ∉ calls) :
    p.literals <+: (p.after calls).literals := by
  induction calls generalizing p with
  | nil => exact List.prefix_refl _
  | cons c rest ih =>
    have later := @ih (p.call c).2 fun n member => kept n (List.mem_cons_of_mem _ member)
    refine List.IsPrefix.trans ?_ later
    cases c with
    | register text =>
      unfold call
      dsimp only
      split
      · rename_i l p' registered
        exact (grows_of_register registered).isPrefix
      · exact List.prefix_refl _
    | parse text => simp only [call_parse, List.prefix_refl]
    | truncate n => exact absurd List.mem_cons_self (kept n)

/-- A constant is found in the pool where it is registered, and in all pools that come from it while
nothing is cut off. -/
theorem found_after (parse : Literal.parse text = .ok parsed) (kept : ∀ n, .truncate n ∉ calls) :
    ∃ l, (p.call (.register text)).1 = .literal l ∧
      (p.after (.register text :: calls)).get? parsed.bytes = some l := by
  obtain ⟨l, p', registered, _, found⟩ := register_of_parse parse p
  have called : p.call (.register text) = (.literal l, p') := by simp only [call, registered]
  refine ⟨l, by rw [called], ?_⟩
  rw [after, List.foldl_cons, called]
  exact List.IsPrefix.find?_eq_some (isPrefix_after kept) found

theorem after_append (p : LiteralPool) (calls more : List Call) :
    p.after (calls ++ more) = (p.after calls).after more := List.foldl_append

theorem Lawful.tellsApart (lawful : p.Lawful) : p.TellsApart := by
  intro a b x y between parse parse' kept few
  have kept' : ∀ n, .truncate n ∉ between ++ [.register b] := by
    intro n member
    rcases List.mem_append.1 member with inside | last
    · exact kept n inside
    · cases List.mem_singleton.1 last
  obtain ⟨l, first, found⟩ := @found_after p a x (between ++ [.register b]) parse kept'
  obtain ⟨m, second, found'⟩ := @found_after (p.after (.register a :: between)) b y [] parse' (by simp)
  rw [← after_append] at found'
  rw [← List.cons_append] at found
  exact ⟨l, m, first, second,
    ((lawful.after _).isNumbered few).address_eq_iff found found'⟩

/-- A new pool after any calls, as long as there is an address for every literal. -/
theorem calls_law (history : List Call) (few : (empty.after history).size < 2147483647) :
    let p := empty.after history
    (p.literals.Pairwise fun a b => a.bytes ≠ b.bytes) ∧
    (∀ (i : Nat) (l : Literal), p.literals[i]? = some l → l.address = some (i + 1 : Int)) ∧
    p.nextAddress = p.size + 1 ∧
    (∀ text, p.Registers text ∧ (p.call (.parse text)).2 = p) ∧
    (∀ n, p.Truncates n) ∧
    p.TellsApart := by
  have lawful : (empty.after history).Lawful := lawful_empty.after history
  exact ⟨lawful.distinct, lawful.isNumbered few, lawful.nextAddress_eq few,
    fun text => ⟨lawful.registers few text, call_parse text⟩, lawful.truncates few,
    lawful.tellsApart⟩

/-- Bytes in another spelling, a text that is none, a truncation in between, and a second one that is taken
back. -/
theorem calls_law_truncated :
    let p := empty.after [.register "=C'AB'", .register "=X'4142'", .register "=Q", .register "=X'05'",
      .truncate 1, .parse "7", .register "=x'5'", .register "12"]
    p.literals.map Literal.expression = ["=C'AB'", "=x'5'", "12"] ∧ p.nextAddress = 4 ∧
      p.call (.register " X'0C' ") = (.literal ⟨"12", .decimal, [12], some 3⟩, p) ∧
      (p.truncate 1).after [.register " =x'5'", .register "12 "] = p := by
  intro p
  obtain ⟨_, _, counted, calls, cut, _⟩ := calls_law [.register "=C'AB'", .register "=X'4142'",
    .register "=Q", .register "=X'05'", .truncate 1, .parse "7", .register "=x'5'", .register "12"]
    (by decide)
  refine ⟨rfl, counted, ?_, ?_⟩
  · exact (calls " X'0C' ").1.known ⟨"X'0C'", .constantNumber, [12], none⟩ rfl
      ⟨"12", .decimal, [12], some 3⟩ (by decide) rfl
  · exact ((cut 1).restored [" =x'5'", "12 "] rfl).2

end SicXe.LiteralPool
