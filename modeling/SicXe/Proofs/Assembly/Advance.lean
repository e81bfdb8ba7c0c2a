import SicXe.Proofs.Assembly.Step

/-!
# How far a line moves the location counter

A resolved line takes the room that its instruction says (`Takes`), whatever its operand column was
needed for otherwise. The counter is computed in words of 64 bits, and in words of 32 bits where a
faulty line is stepped over; `followingWord` repeats the computation with every operation checked, and
`followingWord_eq` says that no check ever fails.
-/
namespace SicXe

/-- A number as a signed word, if it is one: the result of an operation that does not overflow. -/
def Word.signed? (width : Width) (n : Int) : Option Int :=
  if -(width.modulus / 2 : Int) ≤ n ∧ n < width.modulus / 2 then some n else none

theorem Word.signed?_bits64 {n : Int} (lower : -9223372036854775808 ≤ n)
    (upper : n ≤ 9223372036854775807) : signed? .bits64 n = some n := by
  apply if_pos
  simp only [Width.modulus]
  omega

theorem Word.signed?_bits32 {n : Int} (h : fits n = true) : signed? .bits32 n = some n := by
  rw [fits_iff] at h
  apply if_pos
  simp only [Width.modulus]
  omega

namespace Assembly

/-- `following` as it is computed, every sum and product in a word of 64 bits. -/
def followingWord (i : Instruction) (counter : Int) (operand : Option Operand) :
    Except Error (Option Int) :=
  match i with
  | .directive .start => (required i operand).map fun o => Word.signed? .bits64 o.value
  | .directive .equ => (required i operand).map fun _ => Word.signed? .bits64 counter
  | .directive .byte => (required i operand).map fun o => Word.signed? .bits64 (counter + o.size)
  | .directive .resb =>
    (required i operand).bind fun o => (reservation i o).map fun count =>
      Word.signed? .bits64 (counter + count)
  | .directive .resw =>
    (required i operand).bind fun o => (reservation i o).map fun count =>
      (Word.signed? .bits64 (count * wordSize)).bind fun room =>
        Word.signed? .bits64 (counter + room)
  | _ => .ok (Word.signed? .bits64 (counter + (fixedSize? i).getD 0))

theorem fixedSize?_le {i : Instruction} {size : Nat} (h : fixedSize? i = some size) : size ≤ 4 := by
  have format (f : Instruction.Format) : f.size ≤ 4 := by cases f <;> decide
  cases i with
  | machine mnemonic opcode f =>
    cases h
    exact format f
  | directive d => cases d <;> cases h <;> decide

/-- A reservation is for as many units as the operand says, or is refused. -/
theorem reservation_cases (i : Instruction) (o : Operand) :
    (0 ≤ o.value ∧ reservation i o = .ok o.value) ∨ ∃ e, reservation i o = .error e := by
  unfold reservation
  by_cases negative : o.value < 0
  · exact Or.inr ⟨_, if_pos negative⟩
  · exact Or.inl ⟨by omega, if_neg negative⟩

/-- No operation of the computation overflows. -/
theorem followingWord_eq {i : Instruction} {counter : Int} {operand : Option Operand}
    (address : Word.isAddress counter = true)
    (fits : ∀ o, operand = some o → Word.fits o.value = true) :
    followingWord i counter operand = (following i counter operand).map some := by
  rw [Word.isAddress_iff] at address
  unfold Word.maxAddress at address
  have fixed (i : Instruction) : Word.signed? .bits64 (counter + (fixedSize? i).getD 0) =
      some (counter + ((fixedSize? i).getD 0 : Nat)) := by
    have small : (fixedSize? i).getD 0 ≤ 4 := by
      cases sized : fixedSize? i with
      | none => decide
      | some size => exact fixedSize?_le sized
    apply Word.signed?_bits64 <;> omega
  cases i with
  | machine mnemonic opcode format =>
    simp only [followingWord, following, fixed, Except.map]
  | directive d =>
    cases operand with
    | none =>
      cases d <;> simp only [followingWord, following, required, fixed, Except.map, Except.bind]
    | some o =>
      have value := Word.fits_iff.1 (fits o rfl)
      have size : -2147483648 ≤ o.size ∧ o.size ≤ 2147483647 :=
        Word.fits_iff.1 (Word.fits_wrap o.bytes.length)
      cases d with
      | start =>
        have exact_value : Word.signed? .bits64 o.value = some o.value := by
          apply Word.signed?_bits64 <;> omega
        simp only [followingWord, following, required, Except.map, exact_value]
      | equ =>
        have exact_counter : Word.signed? .bits64 counter = some counter := by
          apply Word.signed?_bits64 <;> omega
        simp only [followingWord, following, required, Except.map, exact_counter]
      | byte =>
        have exact_sum : Word.signed? .bits64 (counter + o.size) = some (counter + o.size) := by
          apply Word.signed?_bits64 <;> omega
        simp only [followingWord, following, required, Except.map, exact_sum]
      | resb =>
        have exact_sum : Word.signed? .bits64 (counter + o.value) = some (counter + o.value) := by
          apply Word.signed?_bits64 <;> omega
        simp only [followingWord, following, required, Except.bind]
        rcases reservation_cases (.directive .resb) o with ⟨_, granted⟩ | ⟨e, refused⟩
        · simp only [granted, Except.map, exact_sum]
        · simp only [refused, Except.map]
      | resw =>
        have exact_product : Word.signed? .bits64 (o.value * wordSize) =
            some (o.value * wordSize) := by
          unfold wordSize
          apply Word.signed?_bits64 <;> omega
        have exact_sum : Word.signed? .bits64 (counter + o.value * wordSize) =
            some (counter + o.value * wordSize) := by
          unfold wordSize
          apply Word.signed?_bits64 <;> omega
        simp only [followingWord, following, required, Except.bind]
        rcases reservation_cases (.directive .resw) o with ⟨_, granted⟩ | ⟨e, refused⟩
        · simp only [granted, Except.map, exact_product, Option.bind_some, exact_sum]
        · simp only [refused, Except.map]
      | _ => simp only [followingWord, following, fixed, Except.map]

/-! ### The room that a line takes -/

/-- The room that an instruction takes with an operand. -/
inductive Takes : Instruction → Option Operand → Int → Prop where
  | resb {o : Operand} (nonneg : 0 ≤ o.value) : Takes (.directive .resb) (some o) o.value
  | resw {o : Operand} (nonneg : 0 ≤ o.value) : Takes (.directive .resw) (some o) (3 * o.value)
  | byte {o : Operand} : Takes (.directive .byte) (some o) o.bytes.length
  | word {operand : Option Operand} : Takes (.directive .word) operand 3
  | machine {mnemonic : String} {opcode : UInt8} {format : Instruction.Format}
      {operand : Option Operand} (sized : format ≠ .unsized) :
      Takes (.machine mnemonic opcode format) operand format.size
  | nothing {d : Instruction.Directive} {operand : Option Operand}
      (none : d ∈ [.start, .finish, .base, .equ, .extdef, .extref]) :
      Takes (.directive d) operand 0

theorem Takes.nonneg {i : Instruction} {operand : Option Operand} {size : Int}
    (h : Takes i operand size) : 0 ≤ size := by
  cases h <;> omega

/-- The room between the counter before an instruction that is not START and the one after it. -/
theorem lengthOf_add {i : Instruction} (h : i ≠ .directive .start) (counter size : Int) :
    lengthOf i counter (counter + size) = size := by
  rw [lengthOf, if_neg h]
  omega

/-- What a successful computation of the counter adds to it is the room that the instruction takes. -/
theorem takes_of_following {i : Instruction} {counter next : Int} {operand : Option Operand}
    (sized : (∃ d, i = .directive d) ∨ i.format ≠ .unsized)
    (counted : ∀ o, operand = some o → o.size = o.bytes.length)
    (h : following i counter operand = .ok next) : Takes i operand (lengthOf i counter next) := by
  cases i with
  | machine mnemonic opcode format =>
    cases h
    rw [lengthOf_add (by simp)]
    rcases sized with ⟨d, directive⟩ | sized
    · cases directive
    · exact .machine sized
  | directive d =>
    cases d with
    | word =>
      cases h
      rw [lengthOf_add (by simp)]
      exact .word
    | start =>
      rw [lengthOf, if_pos rfl]
      exact .nothing (by decide)
    | equ =>
      cases operand with
      | none => cases h
      | some o =>
        cases h
        rw [lengthOf, if_neg (by simp), Int.sub_self]
        exact .nothing (by decide)
    | byte =>
      cases operand with
      | none => cases h
      | some o =>
        cases h
        dsimp only
        rw [lengthOf_add (by simp), counted o rfl]
        exact .byte
    | resb =>
      cases operand with
      | none => cases h
      | some o =>
        simp only [following, required, Except.bind] at h
        rcases reservation_cases (.directive .resb) o with ⟨nonneg, granted⟩ | ⟨e, refused⟩
        · rw [granted] at h
          cases h
          rw [lengthOf_add (by simp)]
          exact .resb nonneg
        · rw [refused] at h
          cases h
    | resw =>
      cases operand with
      | none => cases h
      | some o =>
        simp only [following, required, Except.bind] at h
        rcases reservation_cases (.directive .resw) o with ⟨nonneg, granted⟩ | ⟨e, refused⟩
        · rw [granted] at h
          cases h
          dsimp only
          rw [lengthOf_add (by simp), wordSize, Int.mul_comm]
          exact .resw nonneg
        · rw [refused] at h
          cases h
    | _ =>
      cases h
      rw [lengthOf_add (by simp)]
      exact .nothing (by decide)

/-- What a line does to the location counter. -/
structure Assembler.Advance (a : Assembler) (text : String) (answer : Except Fault Outcome)
    (after : Assembler) : Prop where
  /-- A resolved line has the address that the counter stood at, and takes the room of its
  instruction. START moves the counter to its operand, any other instruction by the room it takes. -/
  resolved : ∀ l, answer = .ok (.resolved l) →
    l.address = a.counter ∧ 0 ≤ l.length ∧ Takes l.instruction l.operand l.length ∧
      (l.instruction = .directive .start → ∃ o, l.operand = some o ∧ after.counter = o.value) ∧
      (l.instruction ≠ .directive .start → after.counter = l.address + l.length)
  steppedOver : ∀ fault, answer = .ok (.faulty fault) →
    ∃ s size, Source.statementIn a.catalog text = some s ∧ fixedSize? s.instruction = some size ∧
      after.counter = a.counter + size
  kept : (answer = .ok .skipped ∨ ∃ fault, answer = .error fault) → after.counter = a.counter
  /-- What is computed in 64 bits, for any operand that the column of the line may have. -/
  bits64 : ∀ s declaration declared operand read,
    Source.statementIn a.catalog text = some s →
    (declareLabel a.counter s.label).run a.tables = .ok declaration declared →
    (readOperand s.instruction s.operand).run declared = .ok operand read →
    followingWord s.instruction a.counter operand.1 =
      (following s.instruction a.counter operand.1).map some
  /-- What is computed in 32 bits: a step over a faulty line, and the length of a resolved one. -/
  bits32 : (∀ s size, Source.statementIn a.catalog text = some s →
      fixedSize? s.instruction = some size →
      Word.signed? .bits32 (a.counter + size) = some (a.counter + size)) ∧
    Word.signed? .bits32 (after.counter - a.counter) = some (after.counter - a.counter)

namespace Resolution

variable {counter next : Int} {line : Nat} {text : String} {s : Source.Statement}
  {t t' : Tables} {l : ResolvedLine}

/-- The bytes of an operand are counted without loss if the line is not too long for that. -/
theorem counted (h : Resolution counter line text s t l next t')
    (short : text.utf8ByteSize < 2147483648)
    (column : ∀ operand, s.operand = some operand → operand.length ≤ text.length) :
    ∀ o, l.operand = some o → o.size = o.bytes.length := by
  intro o present
  have read := h.operand
  rw [present] at read
  obtain ⟨expression, here, _, value⟩ := read.value
  have bytes := length_bytes_of_evaluate value
  have inside := column expression here
  have encoded := Text.length_le_utf8ByteSize text
  apply Word.wrap_of_fits
  rw [Word.fits_iff]
  omega

/-- START has an operand, which is where the counter goes. -/
theorem origin (h : Resolution counter line text s t l next t')
    (start : l.instruction = .directive .start) : ∃ o, l.operand = some o ∧ next = o.value := by
  have moved := h.following
  rw [← h.instruction, start] at moved
  cases operand : l.operand with
  | none =>
    rw [operand] at moved
    cases moved
  | some o =>
    rw [operand] at moved
    cases moved
    exact ⟨o, rfl, rfl⟩

theorem next_eq (h : Resolution counter line text s t l next t')
    (other : l.instruction ≠ .directive .start) : next = l.address + l.length := by
  rw [h.instruction] at other
  rw [h.address, h.length, lengthOf, if_neg other]
  omega

theorem takes {catalog : Catalog} (h : Resolution counter line text s t l next t')
    (formatted : catalog.Formatted) (read : Source.statementIn catalog text = some s)
    (short : text.utf8ByteSize < 2147483648) : Takes l.instruction l.operand l.length := by
  obtain ⟨⟨column, found⟩, operand_column⟩ := Source.statementIn_eq_some read
  rw [h.instruction, h.length]
  exact takes_of_following (formatted.lookup found) (h.counted short operand_column) h.following

end Resolution

namespace Assembler

variable {catalog : Catalog} {seeded : SymbolTable} {policy : Policy} {a : Assembler}

/-- The location counter is an address at all times, and each line moves it as its instruction says. -/
theorem Reachable.advance (built : seeded.Built) (formatted : catalog.Formatted)
    (reached : Reachable catalog seeded policy a) (line : Nat) {text : String}
    (short : text.utf8ByteSize < 2147483648) :
    a.Advance text (a.step line text).1 (a.step line text).2 := by
  obtain ⟨rfl, rfl⟩ := reached.settings built
  have wf := reached.wellFormed built
  have after_wf := wf.step line text
  have steps := steps_step wf line text
  generalize (a.step line text).1 = answer at steps
  generalize (a.step line text).2 = after at steps after_wf
  have here := Word.isAddress_iff.1 wf.counter
  have there := Word.isAddress_iff.1 after_wf.counter
  unfold Word.maxAddress at here there
  constructor
  · rintro l rfl
    cases steps with
    | @resolved s l next tables read resolution =>
      have takes := resolution.takes formatted read short
      exact ⟨resolution.address, takes.nonneg, takes, resolution.origin, resolution.next_eq⟩
  · rintro fault rfl
    cases steps with
    | steppedOver read failed recover sized inside => exact ⟨_, _, read, sized, rfl⟩
  · rintro (rfl | ⟨fault, rfl⟩)
    · cases steps with
      | skipped idle => rfl
    · cases steps with
      | unknown unread => rfl
      | halted read failed stuck => rfl
  · intro s declaration declared operand read stated labelled taken
    obtain ⟨symbols, pool, _⟩ := declareLabel_define labelled
    obtain ⟨column, _⟩ := readOperand_ok taken
    rw [symbols, pool] at column
    refine followingWord_eq wf.counter fun o present => ?_
    rw [present] at column
    obtain ⟨expression, _, _, value⟩ := column.value
    exact fits_of_evaluate
      (wellFormed_define wf.symbols (Word.fits_of_isAddress wf.counter)) wf.pool value
  · refine ⟨fun s size _ sized => ?_, ?_⟩
    · have small := fixedSize?_le sized
      apply Word.signed?_bits32
      rw [Word.fits_iff]
      omega
    · apply Word.signed?_bits32
      rw [Word.fits_iff]
      omega

end Assembler

end Assembly

end SicXe
