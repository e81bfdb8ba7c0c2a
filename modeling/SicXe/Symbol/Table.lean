import SicXe.Symbol.Basic

/-!
# The symbol table

Symbols in ascending order of their labels. The first definition of a label is kept; each further
one only marks it as multiply defined. `restore` takes a definition back.
-/
namespace SicXe

/-- Symbols by label, each stored under its key, the keys ascending. -/
structure SymbolTable where
  entries : List (String × Symbol)
  deriving DecidableEq, Repr

/-- What a definition did to a table, with the symbol that is now stored. -/
inductive Declaration where
  | inserted (symbol : Symbol)
  | existing (symbol : Symbol)
  deriving DecidableEq, Repr

namespace Declaration

def symbol : Declaration → Symbol
  | inserted symbol => symbol
  | existing symbol => symbol

def isExisting : Declaration → Bool
  | inserted _ => false
  | existing _ => true

end Declaration

namespace SymbolTable

def empty : SymbolTable := ⟨[]⟩

def size (t : SymbolTable) : Nat := t.entries.length

def isEmpty (t : SymbolTable) : Bool := t.entries.isEmpty

/-- The symbols in label order. -/
def toList (t : SymbolTable) : List Symbol := t.entries.map Prod.snd

/-- The symbol under a key. -/
def get? (t : SymbolTable) (key : String) : Option Symbol :=
  (t.entries.find? (·.1 = key)).map Prod.snd

/-- Stores a symbol at its place in the order, in place of one under the same key. -/
def setIn (key : String) (symbol : Symbol) : List (String × Symbol) → List (String × Symbol)
  | [] => [(key, symbol)]
  | entry :: rest =>
    if key = entry.1 then (key, symbol) :: rest
    else if key < entry.1 then (key, symbol) :: entry :: rest
    else entry :: setIn key symbol rest

def set (t : SymbolTable) (key : String) (symbol : Symbol) : SymbolTable :=
  ⟨setIn key symbol t.entries⟩

def erase (t : SymbolTable) (key : String) : SymbolTable :=
  ⟨t.entries.filter (·.1 ≠ key)⟩

@[simp] theorem get?_empty (key : String) : empty.get? key = none := rfl

@[simp] theorem get?_set_self (t : SymbolTable) (key : String) (symbol : Symbol) :
    (t.set key symbol).get? key = some symbol := by
  obtain ⟨entries⟩ := t
  simp only [get?, set, Option.map_eq_some_iff]
  refine ⟨(key, symbol), ?_, rfl⟩
  induction entries with
  | nil => simp [setIn]
  | cons entry rest ih =>
    unfold setIn
    split
    · simp
    · split
      · simp
      · rename_i different _
        rw [List.find?_cons_of_neg (by simpa using Ne.symm different)]
        exact ih

theorem get?_set_of_ne {key other : String} (h : other ≠ key) (t : SymbolTable)
    (symbol : Symbol) : (t.set key symbol).get? other = t.get? other := by
  obtain ⟨entries⟩ := t
  simp only [get?, set]
  congr 1
  induction entries with
  | nil => simp [setIn, Ne.symm h]
  | cons entry rest ih =>
    unfold setIn
    split
    · rename_i same
      have absent : entry.1 ≠ other := fun e => h (e ▸ same.symm)
      simp [Ne.symm h, absent]
    · split
      · simp [Ne.symm h]
      · simp only [List.find?_cons, ih]

@[simp] theorem get?_erase_self (t : SymbolTable) (key : String) :
    (t.erase key).get? key = none := by
  simp [get?, erase, List.find?_eq_none]

theorem get?_erase_of_ne {key other : String} (h : other ≠ key) (t : SymbolTable) :
    (t.erase key).get? other = t.get? other := by
  simp only [get?, erase, List.find?_filter]
  congr 2
  funext entry
  by_cases same : entry.1 = other
  · simp [same, h]
  · simp [same]

/-- Defines a symbol. A label that is there keeps its value and is marked. -/
def insert (t : SymbolTable) (symbol : Symbol) : Declaration × SymbolTable :=
  match t.get? symbol.label with
  | some known =>
    let marked := { known with multiplyDefined := true }
    (.existing marked, t.set symbol.label marked)
  | none => (.inserted symbol, t.set symbol.label symbol)

def declare (t : SymbolTable) (label : String) (value : Int) (relocatable : Bool) :
    Except Label.Error (Declaration × SymbolTable) :=
  match Symbol.ofLabel label value relocatable with
  | .ok symbol => .ok (t.insert symbol)
  | .error e => .error e

/-- Defines the symbol of an entry. -/
def seed (t : SymbolTable) (line : String) :
    Except Symbol.EntryError (Declaration × SymbolTable) :=
  match Symbol.ofEntry line with
  | .ok symbol => .ok (t.insert symbol)
  | .error e => .error e

/-- The symbol of a label in any case. A text that is no label names none. -/
def lookup (t : SymbolTable) (label : String) : Option Symbol :=
  match Label.normalize label with
  | .ok key => t.get? key
  | .error _ => none

def contains (t : SymbolTable) (label : String) : Bool := (t.lookup label).isSome

/-- Gives a known symbol another value. -/
def assign (t : SymbolTable) (label : String) (value : Int) (relocatable : Bool) :
    Option Symbol × SymbolTable :=
  match Label.normalize label with
  | .error _ => (none, t)
  | .ok key =>
    match t.get? key with
    | none => (none, t)
    | some known =>
      let symbol := { known with value := value, relocatable := relocatable }
      (some symbol, t.set key symbol)

/-- Puts a label back to what `lookup` gave before it was defined. -/
def restore (t : SymbolTable) (label : String) (before : Option Symbol) : SymbolTable :=
  match Label.normalize label, before with
  | .error _, _ => t
  | .ok key, some symbol => t.set key symbol
  | .ok key, none => t.erase key

/-- Defines the symbols of entries in order, up to the first that cannot be read. -/
def seedAll (t : SymbolTable) : List String → Except Symbol.EntryError SymbolTable
  | [] => .ok t
  | line :: rest =>
    match t.seed line with
    | .ok (_, t) => seedAll t rest
    | .error e => .error e

end SymbolTable

end SicXe
