/-!
# Words and addresses

Values are signed numbers of 32 bits. A machine word and an address have 24 bits, and output shows
the low 24 bits of a value.
-/
namespace SicXe.Word

/-- Whether a number is a value. -/
def fits (n : Int) : Bool := -2147483648 ≤ n && n ≤ 2147483647

/-- The value whose 32 bits are the low ones of a number. -/
def wrap (n : Int) : Int := Int.bmod n 0x100000000

/-- The highest address. -/
def maxAddress : Int := 0xFFFFFF

/-- Whether a number is an address. -/
def isAddress (n : Int) : Bool := 0 ≤ n && n ≤ maxAddress

/-- The number of bits of a word. -/
inductive Width where
  | bits24 | bits32 | bits64
  deriving DecidableEq, Repr

/-- How many words of a width there are. -/
def Width.modulus : Width → Nat
  | bits24 => 0x1000000
  | bits32 => 0x100000000
  | bits64 => 0x10000000000000000

/-- A number as a word, in two's complement. -/
def unsigned (width : Width) (n : Int) : Nat := (n % width.modulus).toNat

/-- The part of a value that a machine word holds. -/
def low (n : Int) : Nat := unsigned .bits24 n

theorem unsigned_lt (width : Width) (n : Int) : unsigned width n < width.modulus := by
  have positive : (0 : Int) < width.modulus := by cases width <;> decide
  have nonneg := Int.emod_nonneg n (Int.ne_of_gt positive)
  have below := Int.emod_lt_of_pos n positive
  unfold unsigned
  omega

theorem fits_iff {n : Int} : fits n = true ↔ -2147483648 ≤ n ∧ n ≤ 2147483647 := by
  simp [fits]

theorem isAddress_iff {n : Int} : isAddress n = true ↔ 0 ≤ n ∧ n ≤ maxAddress := by
  simp [isAddress]

/-- An address is a value. -/
theorem fits_of_isAddress {n : Int} (h : isAddress n = true) : fits n = true := by
  rw [isAddress_iff] at h
  rw [fits_iff]
  unfold maxAddress at h
  omega

theorem fits_wrap (n : Int) : fits (wrap n) = true := by
  have lower := Int.le_bmod (x := n) (m := 0x100000000) (by decide)
  have upper := Int.bmod_lt (x := n) (m := 0x100000000) (by decide)
  rw [fits_iff]
  unfold wrap
  omega

/-- A value is its own low bits. -/
theorem wrap_of_fits {n : Int} (h : fits n = true) : wrap n = n := by
  rw [fits_iff] at h
  exact Int.bmod_eq_of_le (by omega) (by omega)

/-- Low bits may be taken before or after a step of a counter. -/
theorem wrap_wrap_add (m n : Int) : wrap (wrap m + n) = wrap (m + n) := Int.bmod_add_bmod

/-- A negative value shows as its two's complement. -/
example : low (-1) = 0xFFFFFF ∧ low 0x1000001 = 1 ∧ unsigned .bits32 (-1) = 0xFFFFFFFF := by
  decide

end SicXe.Word
