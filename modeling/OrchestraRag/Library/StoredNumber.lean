import Mathlib.Algebra.Group.Int.Defs
import Mathlib.Tactic.Use

/-!
# Numbers in a column

A column of type INTEGER holds an integer of 64 bits or, once a sum has overflowed, the REAL that
the sum became.  What a REAL is added to is given from outside (`RealArithmetic`).  A stored number
stays an exact sum as long as no partial sum leaves the range of 64 bits.
-/

namespace Sql

/-- A number in a column: an integer, or a REAL by its bits. -/
inductive StoredNumber where
  | integer (n : Int64)
  | real (bits : UInt64)
  deriving DecidableEq

/-- The sums that are not integers of 64 bits: the REAL of two integers, and what a column stores
of a REAL and an integer. -/
structure RealArithmetic where
  ofSum : Int64 → Int64 → UInt64
  add : UInt64 → Int64 → StoredNumber

/-- The integer has 64 bits, with its sign. -/
def InI64 (n : ℤ) : Prop :=
  -2 ^ 63 ≤ n ∧ n < 2 ^ 63

instance (n : ℤ) : Decidable (InI64 n) :=
  inferInstanceAs (Decidable (_ ∧ _))

theorem inI64_toInt (k : Int64) :
  InI64 k.toInt
  := ⟨k.le_toInt, k.toInt_lt⟩

namespace StoredNumber

instance : Zero StoredNumber :=
  ⟨.integer 0⟩

/-- The column is increased by an integer. -/
def add (arithmetic : RealArithmetic) : StoredNumber → Int64 → StoredNumber
  | .integer n, k =>
      if InI64 (n.toInt + k.toInt) then .integer (.ofInt (n.toInt + k.toInt))
      else .real (arithmetic.ofSum n k)
  | .real bits, k => arithmetic.add bits k

/-- Read a column as an `i64`. -/
def get (index : ℕ) (name : String) : StoredNumber → Except String Int64
  | .integer n => .ok n
  | .real _ =>
      .error ("Invalid column type Real at index: " ++ toString index ++ ", name: " ++ name)

/-- The column holds an integer. -/
def Is (x : StoredNumber) (n : ℤ) : Prop :=
  ∃ k : Int64, x = .integer k ∧ k.toInt = n

theorem is_zero :
  Is 0 0
  := ⟨0, rfl, rfl⟩

/-- A sum in the range is stored exactly. -/
theorem Is.add {x : StoredNumber} {n : ℤ} (h : x.Is n) (arithmetic : RealArithmetic) {k : Int64}
    (hrange : InI64 (n + k.toInt)) :
  (x.add arithmetic k).Is (n + k.toInt)
  := by
  obtain ⟨m, rfl, rfl⟩ := h
  use .ofInt (m.toInt + k.toInt)
  constructor
  · rw [StoredNumber.add, if_pos hrange]
  · apply Int64.toInt_ofInt_of_le hrange.1 hrange.2

/-- A sum outside the range is no integer. -/
theorem Is.add_overflow {x : StoredNumber} {n : ℤ} (h : x.Is n) (arithmetic : RealArithmetic)
    {k : Int64} (hrange : ¬ InI64 (n + k.toInt)) (index : ℕ) (name : String) :
  ∃ e, (x.add arithmetic k).get index name = .error e
  := by
  obtain ⟨m, rfl, rfl⟩ := h
  rw [StoredNumber.add, if_neg hrange]
  exact ⟨_, rfl⟩

end StoredNumber

end Sql
