import Mathlib.Data.List.Find
import SicXe.Proofs.Catalog.Registration

/-!
# Catalogs as two containers

A catalog can be kept in two containers that are written one after the other: a map from names to
entries, the directives among them, and pairs of a mnemonic and an opcode, where a new pair takes the
place of those that share one of its halves. Registration looks into both before it writes, so nothing
is ever replaced, and the containers stay in step with the catalog (`InStep.eq`): what it answers is what
they answer.
-/
namespace SicXe.Catalog

open Instruction (Directive Format)

/-- A map from names to entries, and pairs of mnemonics and opcodes. -/
structure Index where
  entries : List (String × Instruction)
  owners : List (String × UInt8)
  deriving DecidableEq

namespace Index

def find? (x : Index) (key : String) : Option Instruction :=
  (x.entries.find? fun entry => entry.1 = key).map Prod.snd

def mnemonicOf? (x : Index) (opcode : UInt8) : Option String :=
  (x.owners.find? fun pair => pair.2 = opcode).map Prod.fst

/-- The number of machine instructions. -/
def size (x : Index) : Nat := x.owners.length

/-- Stores an entry in place of one under the same name. -/
def put (x : Index) (key : String) (i : Instruction) : Index :=
  { x with entries := x.entries.filter (fun entry => entry.1 ≠ key) ++ [(key, i)] }

/-- Pairs a mnemonic and an opcode in place of all pairs with either of them. -/
def own (x : Index) (key : String) (opcode : UInt8) : Index :=
  { x with owners := x.owners.filter (fun pair => pair.1 ≠ key ∧ pair.2 ≠ opcode) ++ [(key, opcode)] }

/-- The directives only. -/
def new : Index := Directive.all.foldl (fun x d => x.put d.name (.directive d)) ⟨[], []⟩

/-- Stores an instruction in both containers, whatever they hold. -/
def store (x : Index) : Instruction → Index
  | .machine mnemonic opcode format =>
    (x.put mnemonic (.machine mnemonic opcode format)).own mnemonic opcode
  | .directive _ => x

/-- The standard instructions, stored without a look at what is there. -/
def standard : Index := Catalog.standard.entries.foldl store new

/-- Registration in place. -/
def register (x : Index) (mnemonic : String) (opcode : UInt8) (format : Format) :
    Except Error Unit × Index :=
  let key := Instruction.upper mnemonic
  if (x.find? key).isSome then (.error (.duplicateMnemonic key), x)
  else match x.mnemonicOf? opcode with
    | some owner => (.error (.duplicateOpcode key opcode owner), x)
    | none => (.ok (), (x.own key opcode).put key (.machine key opcode format))

/-- The two containers of a catalog. -/
def of (c : Catalog) : Index where
  entries := Directive.all.map (fun d => (d.name, .directive d)) ++
    c.entries.map fun i => (i.mnemonic, i)
  owners := c.entries.filterMap fun i => i.opcode?.map (i.mnemonic, ·)

end Index

variable {c c' : Catalog} {x : Index} {mnemonic : String} {opcode : UInt8} {format : Format}

/-! ### The containers of a catalog -/

theorem Index.find?_of (c : Catalog) (key : String) : (Index.of c).find? key = c.find? key := by
  unfold Index.find? Index.of Catalog.find?
  rw [List.find?_append, List.find?_map, List.find?_map]
  have names : (fun entry : String × Instruction => decide (entry.1 = key)) ∘
      (fun d : Directive => (d.name, Instruction.directive d)) = fun d => decide (d.name = key) := rfl
  have keys : (fun entry : String × Instruction => decide (entry.1 = key)) ∘
      (fun i : Instruction => (i.mnemonic, i)) = fun i => decide (i.mnemonic = key) := rfl
  rw [names, keys]
  cases Directive.all.find? (fun d => d.name = key) with
  | some d => rfl
  | none =>
    dsimp only [Option.map_none, Option.none_or]
    rw [Option.map_map]
    exact Option.map_id'

theorem Index.owners_of (sound : c.Sound) :
    (Index.of c).owners = c.entries.map fun i => (i.mnemonic, i.opcode?.getD 0) := by
  unfold Index.of
  dsimp only
  rw [← List.filterMap_eq_map]
  apply List.filterMap_congr
  intro i member
  obtain ⟨opcode, format, shape, _⟩ := sound.eq_machine member
  rw [shape]
  rfl

theorem Index.size_of (sound : c.Sound) : (Index.of c).size = c.size := by
  rw [Index.size, Index.owners_of sound, List.length_map]
  rfl

theorem Index.mnemonicOf?_of (sound : c.Sound) (opcode : UInt8) :
    (Index.of c).mnemonicOf? opcode = c.mnemonicOf? opcode := by
  unfold Index.mnemonicOf?
  rw [Index.owners_of sound, List.find?_map, Option.map_map]
  unfold Catalog.mnemonicOf?
  have same : c.entries.find? ((fun pair : String × UInt8 => decide (pair.2 = opcode)) ∘
      fun i => (i.mnemonic, i.opcode?.getD 0)) = c.entries.find? fun i => i.opcode? = some opcode := by
    apply List.find?_congr
    intro i member
    obtain ⟨own, format, shape, _⟩ := sound.eq_machine member
    rw [shape]
    simp [Instruction.opcode?]
  rw [same]
  rfl

/-- Registration does to the two containers what it does to the catalog. -/
theorem Index.register_of (sound : c.Sound) (mnemonic : String) (opcode : UInt8) (format : Format) :
    (Index.of c).register mnemonic opcode format =
      match c.register mnemonic opcode format with
      | .ok c' => (.ok (), Index.of c')
      | .error e => (.error e, Index.of c) := by
  unfold Index.register Catalog.register
  dsimp only
  rw [Index.find?_of, Index.mnemonicOf?_of sound]
  cases known : c.find? (Instruction.upper mnemonic) with
  | some i => rfl
  | none =>
    cases owned : c.mnemonicOf? opcode with
    | some owner => rfl
    | none =>
      obtain ⟨no_directive, no_entry⟩ := c.find?_eq_none_iff.1 known
      have no_owner := c.mnemonicOf?_eq_none_iff.1 owned
      have entries : ∀ entry ∈ (Index.of c).entries, entry.1 ≠ Instruction.upper mnemonic := by
        intro entry member
        rcases List.mem_append.1 member with directive | machine
        · obtain ⟨d, here, rfl⟩ := List.mem_map.1 directive
          exact no_directive d here
        · obtain ⟨i, here, rfl⟩ := List.mem_map.1 machine
          exact no_entry i here
      have owners : ∀ pair ∈ (Index.of c).owners,
          pair.1 ≠ Instruction.upper mnemonic ∧ pair.2 ≠ opcode := by
        intro pair member
        obtain ⟨i, here, made⟩ := List.mem_filterMap.1 member
        obtain ⟨own, owns, rfl⟩ := Option.map_eq_some_iff.1 made
        exact ⟨no_entry i here, fun same => no_owner i here (same ▸ owns)⟩
      -- No entry and no pair clashes, so neither container loses anything to the new one.
      have kept := List.filter_eq_self.2 fun entry member => decide_eq_true (entries entry member)
      have kept' := List.filter_eq_self.2 fun pair member => decide_eq_true (owners pair member)
      simp only [Index.put, Index.own, kept, kept']
      simp [Index.of, Instruction.mnemonic, Instruction.opcode?]

/-! ### Catalogs and containers in step -/

/-- A catalog and two containers, filled alike and then taken through the same registrations. -/
inductive InStep : Catalog → Index → Prop where
  | new : InStep .empty .new
  | standard : InStep .standard .standard
  | registered {c : Catalog} {x : Index} (before : InStep c x) (mnemonic : String) (opcode : UInt8)
      {format : Format} (sized : format ≠ .unsized) :
      InStep (c.after mnemonic opcode format) (x.register mnemonic opcode format).2

/-- In step, the containers are those of the catalog. -/
theorem InStep.eq (step : InStep c x) : c.Sound ∧ x = .of c := by
  induction step with
  | new => exact ⟨sound_empty, by decide⟩
  | standard => exact ⟨sound_standard, by decide +kernel⟩
  | @registered c x _ mnemonic opcode format sized ih =>
    obtain ⟨sound, rfl⟩ := ih
    refine ⟨sound.after mnemonic opcode sized, ?_⟩
    rw [Index.register_of sound, Catalog.after]
    cases c.register mnemonic opcode format <;> rfl

theorem InStep.of_register (step : InStep c x) (sized : format ≠ .unsized)
    (h : c.register mnemonic opcode format = .ok c') : ∃ x', InStep c' x' := by
  have next := step.registered mnemonic opcode sized
  rw [after, h] at next
  exact ⟨_, next⟩

/-- A table is loaded by registrations, so there are containers in step with every catalog. -/
theorem Reached.inStep (reached : c.Reached) : ∃ x, InStep c x := by
  induction reached with
  | empty => exact ⟨_, .new⟩
  | standard => exact ⟨_, .standard⟩
  | loaded h =>
    refine ofTable_induction (motive := fun c => ∃ x, InStep c x) ⟨_, .new⟩ ?_ h
    rintro c c' mnemonic opcode format ⟨x, step⟩ sized registered
    exact step.of_register sized registered
  | registered before mnemonic opcode sized ih =>
    obtain ⟨x, step⟩ := ih
    exact ⟨_, step.registered mnemonic opcode sized⟩

end SicXe.Catalog
