import SicXe.Proofs.Assembly.Comparison
import SicXe.Proofs.Source.Kept

/-!
# How a source is arranged

Two sources make the same program if the same columns are kept of their lines, in order, apart from the
numbers and texts of the lines (`run_unplaced`). So blanks, comments and idle lines do not matter.
-/
namespace SicXe.Assembly.Assembler

variable {catalog : Catalog} {seeded : SymbolTable} {policy : Policy} {a b : Assembler}
  {text text' : String}

/-- Lines of which the same is kept are read alike, up to their numbers. -/
theorem reading_of_kept (kept : Source.kept catalog text = Source.kept catalog text')
    (line line' : Nat) :
    View.unplaced.SameReading (Source.read catalog line text) (Source.read catalog line' text') := by
  rw [Source.read_eq_kept, Source.read_eq_kept, kept]
  cases Source.kept catalog text' with
  | none => exact .idle
  | some columns =>
    dsimp only
    cases Source.statement? catalog columns with
    | some s => exact .stated (.refl _ s)
    | none => exact .unknown rfl

/-! ### Idle lines -/

theorem step_idle (idle : Source.kept a.catalog text = none) (number : Nat) :
    a.step number text = (.ok .skipped, { a with outcomes := a.outcomes.push .skipped }) := by
  unfold step
  rw [Source.read_eq_kept, idle]
  rfl

theorem Abreast.skip_left {v : View} (abreast : Abreast v a b) :
    Abreast v { a with outcomes := a.outcomes.push .skipped } b := by
  refine ⟨abreast.level.recorded _ _, ?_⟩
  rw [significant_push]
  simpa [Outcome.significant] using abreast.outcomes

theorem Abreast.skip_right {v : View} (abreast : Abreast v a b) :
    Abreast v a { b with outcomes := b.outcomes.push .skipped } := by
  refine ⟨abreast.level.recorded _ _, ?_⟩
  rw [significant_push]
  simpa [Outcome.significant] using abreast.outcomes

/-- Idle lines in one source alone. -/
theorem stepAll_idle {v : View} {idle : List String} (abreast : Abreast v a b)
    (nothing : ∀ text ∈ idle, Source.kept a.catalog text = none) (number : Nat)
    (rest : List String) :
    ∃ b', Abreast v a b' ∧
      b.stepAll number (idle ++ rest) = b'.stepAll (number + idle.length) rest := by
  induction idle generalizing b number with
  | nil => exact ⟨b, abreast, rfl⟩
  | cons text idle ih =>
    have here := nothing text (List.mem_cons_self ..)
    rw [← abreast.level.catalog] at here
    obtain ⟨b', still, rest_eq⟩ := ih abreast.skip_right
      (fun other member => nothing other (List.mem_cons_of_mem _ member)) (number + 1)
    refine ⟨b', still, ?_⟩
    rw [List.cons_append, stepAll_cons_ok (step_idle here number), rest_eq, List.length_cons,
      Nat.add_assoc, Nat.add_comm 1]

/-! ### Sources -/

/-- Assemblers that are abreast stay so over sources of which the same is kept, and if one halts so does
the other. The induction is on the first source; idle lines of the second are passed in between. -/
theorem stepAll_kept {lines lines' : List String} (wf : a.WellFormed)
    (abreast : Abreast .unplaced a b)
    (kept : lines.filterMap (Source.kept a.catalog) = lines'.filterMap (Source.kept a.catalog))
    (number number' : Nat) :
    Abreast .unplaced (a.stepAll number lines).1 (b.stepAll number' lines').1 ∧
      (a.stepAll number lines).2.map View.unplaced.fault =
        (b.stepAll number' lines').2.map View.unplaced.fault := by
  induction lines generalizing a b lines' number number' with
  | nil =>
    have nothing : ∀ text ∈ lines', Source.kept a.catalog text = none :=
      List.filterMap_eq_nil_iff.1 kept.symm
    obtain ⟨b', still, passed⟩ := stepAll_idle abreast nothing number' []
    rw [List.append_nil] at passed
    rw [passed]
    exact ⟨still, rfl⟩
  | cons text rest ih =>
    cases here : Source.kept a.catalog text with
    | none =>
      rw [List.filterMap_cons_none here] at kept
      rw [stepAll_cons_ok (step_idle here number)]
      exact ih (wf.stepped (step_idle here number)) abreast.skip_left kept _ _
    | some columns =>
      rw [List.filterMap_cons_some here] at kept
      obtain ⟨idle, text', rest', rfl, nothing, here', kept'⟩ :=
        List.filterMap_eq_cons_iff.1 kept.symm
      obtain ⟨b', still, passed⟩ := stepAll_idle abreast nothing number' (text' :: rest')
      have reading : View.unplaced.SameReading (Source.read a.catalog number text)
          (Source.read b'.catalog (number' + idle.length) text') := by
        rw [still.level.catalog]
        exact reading_of_kept (here.trans here'.symm) _ _
      have same : SameStep .unplaced a b' (a.step number text)
          (b'.step (number' + idle.length) text') := by
        refine step_same wf still.level ?_ ?_ reading
        · rfl
        · rfl
      rw [passed]
      generalize stepped : a.step number text = answer at same
      generalize stepped' : b'.step (number' + idle.length) text' = answer' at same
      cases same with
      | ok outcome level recorded recorded' =>
        rw [stepAll_cons_ok stepped, stepAll_cons_ok stepped']
        have steps := steps_step wf number text
        rw [stepped] at steps
        refine ih (wf.stepped stepped) (still.push outcome level recorded recorded') ?_ _ _
        rw [steps.catalog]
        exact kept'.symm
      | error looks =>
        rw [stepAll_cons_error stepped, stepAll_cons_error stepped']
        exact ⟨still, congrArg some looks⟩

/-- Blanks, comments and idle lines do not matter: sources of which the same columns are kept make
programs with the same tables and addresses, the same outcomes in order, apart from numbers and texts of
lines, and both halt or neither does. -/
theorem run_unplaced (built : seeded.Built) (policy : Policy) {lines lines' : List String}
    (kept : lines.filterMap (Source.kept catalog) = lines'.filterMap (Source.kept catalog)) :
    ((new catalog seeded policy).run lines).SameIn .unplaced
      ((new catalog seeded policy).run lines') := by
  have abreast : Abreast .unplaced (new catalog seeded policy) (new catalog seeded policy) :=
    ⟨⟨rfl, rfl, rfl, rfl, rfl⟩, .nil⟩
  obtain ⟨still, halts⟩ := stepAll_kept (wellFormed_new catalog built policy) abreast kept 1 1
  rw [run_eq, run_eq]
  exact sameIn_finish built (reachable_run catalog seeded policy lines)
    (reachable_run catalog seeded policy lines') still halts

/-- The second source has a header, a blank line, other blanks, and apostrophes in its comments. The first
line is resolved, a later one stepped over, and the last one halts. -/
theorem run_unplaced_commented :
    let lines := ["START 4096", "A WORD =C'A B'", "WORD A+B+C", "X FOO 1"]
    let lines' := [". It's a header", "  START\u00a04096  don't", "", "\tA   WORD =C'A B' it's A's",
      "WORD A+B+C 'twas", "X FOO 1 isn't one'"]
    let p := (new .empty .empty .recover).run lines
    let q := (new .empty .empty .recover).run lines'
    p.faults = [⟨3, "WORD A+B+C", .expressionSyntax "A+B+C" .twoTerms⟩,
        ⟨4, "X FOO 1", .unknownInstruction 4 "X" (some "FOO")⟩] ∧
      q.faults = [⟨5, "WORD A+B+C 'twas", .expressionSyntax "A+B+C" .twoTerms⟩,
        ⟨6, "X FOO 1 isn't one'", .unknownInstruction 6 "X" (some "FOO")⟩] ∧
      p.SameIn .unplaced q := by
  refine ⟨by decide +kernel, by decide +kernel, ?_⟩
  exact run_unplaced .empty .recover (by decide +kernel)

end SicXe.Assembly.Assembler
