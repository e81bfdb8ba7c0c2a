import SicXe.Proofs.Assembly.Step

/-!
# Steps are atomic

A line may define its label, mark a label that was known, put a literal into the pool and change the
value of an EQU label before it fails. Whatever it had got to, nothing of it is left: an assembler
that halts is the one before the line, and one that steps over the line differs from it by the
location counter and the recorded fault alone.
-/
namespace SicXe.Assembly.Assembler

variable {catalog : Catalog} {seeded : SymbolTable} {policy : Policy} {a : Assembler}

/-- A step that gives a fault back leaves the assembler as it was, and one that records a fault does
no more than move the location counter over a line of a fixed size. -/
theorem step_atomic (built : seeded.Built) (reached : Reachable catalog seeded policy a)
    (line : Nat) (text : String) :
    (∀ fault, (a.step line text).1 = .error fault → (a.step line text).2 = a) ∧
      ∀ fault, (a.step line text).1 = .ok (.faulty fault) →
        policy = .recover ∧ ∃ s size, Source.statementIn catalog text = some s ∧
          fixedSize? s.instruction = some size ∧ a.counter + size ≤ Word.maxAddress ∧
          (a.step line text).2 =
            { a with
              counter := a.counter + size
              outcomes := a.outcomes.push (.faulty fault) } := by
  obtain ⟨rfl, rfl⟩ := reached.settings built
  have steps := steps_step (reached.wellFormed built) line text
  generalize (a.step line text).1 = answer at steps
  generalize (a.step line text).2 = after at steps
  constructor
  · rintro fault rfl
    cases steps with
    | unknown => rfl
    | halted => rfl
  · rintro fault rfl
    cases steps with
    | steppedOver read failed recover sized inside =>
      exact ⟨recover, _, _, read, sized, inside, rfl⟩

/-- Three bytes from the end: a line that pools a literal and marks its label before it turns out too
long, and one with a faulty operand that is stepped over. -/
theorem step_atomic_near_the_end :
    let a := ((new .empty .empty .recover).step 1 "A START 16777212").2
    (a.step 2 "a BYTE =C'ABCDEF'").2 = a ∧ (a.step 2 "A WORD 1+2+3").2.tables = a.tables := by
  have reached : Reachable .empty .empty .recover
      ((new .empty .empty .recover).step 1 "A START 16777212").2 := .step .new 1 _
  have too_long := step_atomic .empty reached 2 "a BYTE =C'ABCDEF'"
  have faulty := step_atomic .empty reached 2 "A WORD 1+2+3"
  constructor
  · exact too_long.1 ⟨2, "a BYTE =C'ABCDEF'", .addressOverflow 16777218⟩ rfl
  · obtain ⟨_, _, _, _, _, _, after⟩ :=
      faulty.2 ⟨2, "A WORD 1+2+3", .expressionSyntax "1+2+3" .twoTerms⟩ rfl
    rw [after]

end SicXe.Assembly.Assembler
