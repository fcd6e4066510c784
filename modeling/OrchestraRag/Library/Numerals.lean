import Mathlib.Algebra.Group.Nat.Defs
import Mathlib.Data.List.Lex
import Mathlib.Order.Lattice
import Mathlib.Tactic.Tauto

/-!
# Numerals and their order

Words are compared lexicographically.  Numerals of one width, with leading zeros, are in the order
of the numbers (`Numerals.write_lt_iff`).  So are the groups of digits of a fraction when zeros at
the end are left out and what follows is less than every digit (`Numerals.trimmed_lt_iff`).
-/

section Words

variable {α : Type} [LinearOrder α]

/-- Words of one length decide, unless they are the same. -/
theorem append_lt_append_iff {xs ys : List α} (h : xs.length = ys.length) (us vs : List α) :
  xs ++ us < ys ++ vs ↔ xs < ys ∨ xs = ys ∧ us < vs
  := by
  induction xs generalizing ys with
  | nil =>
      obtain rfl := List.length_eq_zero_iff.mp h.symm
      simp
  | cons x xs ih =>
      cases ys with
      | nil => cases h
      | cons y ys =>
          have hlength : xs.length = ys.length := Nat.succ.inj h
          rw [List.cons_append, List.cons_append, List.cons_lt_cons_iff, List.cons_lt_cons_iff,
            ih hlength, List.cons_eq_cons]
          tauto

end Words

/-- Digits in increasing order. -/
structure Numerals (α : Type) [LinearOrder α] where
  base : ℕ
  digit : ℕ → α
  digit_lt_iff : ∀ x < base, ∀ y < base, (digit x < digit y ↔ x < y)

namespace Numerals

variable {α : Type} [LinearOrder α] (numerals : Numerals α)

/-- A number in as many digits, with leading zeros. -/
def write : ℕ → ℕ → List α
  | 0, _ => []
  | width + 1, n =>
      numerals.digit (n / numerals.base ^ width) :: write width (n % numerals.base ^ width)

theorem length_write (width n : ℕ) :
  (numerals.write width n).length = width
  := by
  induction width generalizing n with
  | zero => rfl
  | succ width ih => rw [write, List.length_cons, ih]

variable {numerals}

/-- The first digits of a number are those of its quotient, and the last those of its remainder. -/
theorem write_add {width width' n : ℕ} (h : n < numerals.base ^ (width + width')) :
  numerals.write (width + width') n
    = numerals.write width (n / numerals.base ^ width')
      ++ numerals.write width' (n % numerals.base ^ width')
  := by
  induction width generalizing n with
  | zero =>
      rw [Nat.zero_add] at h
      rw [Nat.zero_add, write, List.nil_append, Nat.mod_eq_of_lt h]
  | succ width ih =>
      have hsum : width + 1 + width' = width + width' + 1 := by omega
      have hpow : numerals.base ^ (width + width')
          = numerals.base ^ width' * numerals.base ^ width := by
        rw [Nat.add_comm, Nat.pow_add]
      have hrest : n % numerals.base ^ (width + width') < numerals.base ^ (width + width') := by
        apply Nat.mod_lt
        apply Nat.pos_of_ne_zero
        intro hzero
        rw [hsum, Nat.pow_succ, hzero, Nat.zero_mul] at h
        apply Nat.not_lt_zero n h
      rw [hsum, write, write, ih hrest, List.cons_append, hpow, Nat.mod_mul_right_div_self,
        Nat.mod_mul_right_mod, Nat.div_div_eq_div_mul]

theorem digit_inj {x y : ℕ} (hx : x < numerals.base) (hy : y < numerals.base) :
  numerals.digit x = numerals.digit y ↔ x = y
  := by
  constructor
  · intro h
    apply Nat.le_antisymm
    · apply Nat.le_of_not_lt
      intro hgt
      apply ((numerals.digit_lt_iff y hy x hx).mpr hgt).ne h.symm
    · apply Nat.le_of_not_lt
      intro hlt
      apply ((numerals.digit_lt_iff x hx y hy).mpr hlt).ne h
  · rintro rfl
    rfl

/-- Quotients decide, unless they are the same. -/
theorem lt_iff_div_mod {base : ℕ} (hbase : 0 < base) (x y : ℕ) :
  x < y ↔ x / base < y / base ∨ x / base = y / base ∧ x % base < y % base
  := by
  have hx := Nat.div_add_mod x base
  have hy := Nat.div_add_mod y base
  have hx' := Nat.mod_lt x hbase
  have hy' := Nat.mod_lt y hbase
  rcases lt_trichotomy (x / base) (y / base) with hlt | heq | hgt
  · have hle := Nat.mul_le_mul_left base (Nat.succ_le_of_lt hlt)
    rw [Nat.mul_succ] at hle
    omega
  · rw [heq] at hx
    omega
  · have hle := Nat.mul_le_mul_left base (Nat.succ_le_of_lt hgt)
    rw [Nat.mul_succ] at hle
    omega

/-- Numbers of the width are in the order of their numerals. -/
theorem write_lt_iff {width x y : ℕ} (hx : x < numerals.base ^ width)
    (hy : y < numerals.base ^ width) :
  numerals.write width x < numerals.write width y ↔ x < y
  := by
  induction width generalizing x y with
  | zero =>
      rw [Nat.pow_zero, Nat.lt_one_iff] at hx hy
      rw [hx, hy]
      simp
  | succ width ih =>
      have hpos : 0 < numerals.base ^ width := by
        apply Nat.pos_of_ne_zero
        intro hzero
        rw [Nat.pow_succ, hzero, Nat.zero_mul] at hx
        apply Nat.not_lt_zero x hx
      have hx' : x / numerals.base ^ width < numerals.base := Nat.div_lt_of_lt_mul hx
      have hy' : y / numerals.base ^ width < numerals.base := Nat.div_lt_of_lt_mul hy
      rw [write, write, List.cons_lt_cons_iff, numerals.digit_lt_iff _ hx' _ hy', digit_inj hx' hy',
        ih (Nat.mod_lt _ hpos) (Nat.mod_lt _ hpos), lt_iff_div_mod hpos x y]

theorem write_inj {width x y : ℕ} (hx : x < numerals.base ^ width)
    (hy : y < numerals.base ^ width) :
  numerals.write width x = numerals.write width y ↔ x = y
  := by
  constructor
  · intro h
    apply Nat.le_antisymm
    · apply Nat.le_of_not_lt
      intro hgt
      apply ((write_lt_iff hy hx).mpr hgt).ne h.symm
    · apply Nat.le_of_not_lt
      intro hlt
      apply ((write_lt_iff hx hy).mpr hlt).ne h
  · rintro rfl
    rfl

/-- Numerals of one width decide, unless they are the same. -/
theorem write_append_lt_iff {width x y : ℕ} (hx : x < numerals.base ^ width)
    (hy : y < numerals.base ^ width) (us vs : List α) :
  numerals.write width x ++ us < numerals.write width y ++ vs ↔ x < y ∨ x = y ∧ us < vs
  := by
  rw [append_lt_append_iff, write_lt_iff hx hy, write_inj hx hy]
  rw [length_write, length_write]

/-! ### Fractions -/

section Trimmed

variable (numerals) (width : ℕ) (stop : List α)

/-- Groups of digits without the zeros at the end, and then an end mark. -/
def trimmed : List ℕ → List α
  | [] => stop
  | group :: groups =>
      if ∀ g ∈ group :: groups, g = 0 then stop
      else numerals.write width group ++ trimmed groups

variable {numerals width stop}

/-- A list of zeros is not greater than another of its length. -/
theorem zeros_lt_iff {xs ys : List ℕ} (hlength : xs.length = ys.length) (hxs : ∀ x ∈ xs, x = 0) :
  xs < ys ↔ ¬ ∀ y ∈ ys, y = 0
  := by
  induction xs generalizing ys with
  | nil =>
      obtain rfl := List.length_eq_zero_iff.mp hlength.symm
      simp
  | cons x xs ih =>
      cases ys with
      | nil => cases hlength
      | cons y ys =>
          rw [List.forall_mem_cons] at hxs
          rw [List.cons_lt_cons_iff, List.forall_mem_cons, ih (Nat.succ.inj hlength) hxs.2, hxs.1]
          rcases Nat.eq_zero_or_pos y with rfl | hpos
          · simp
          · have hne : y ≠ 0 := by omega
            simp [hpos, hne]

theorem not_lt_zeros {xs ys : List ℕ} (hlength : xs.length = ys.length) (hys : ∀ y ∈ ys, y = 0) :
  ¬ xs < ys
  := by
  induction xs generalizing ys with
  | nil =>
      obtain rfl := List.length_eq_zero_iff.mp hlength.symm
      simp
  | cons x xs ih =>
      cases ys with
      | nil => cases hlength
      | cons y ys =>
          rw [List.forall_mem_cons] at hys
          rw [List.cons_lt_cons_iff, hys.1]
          rintro (hlt | ⟨-, hlt⟩)
          · apply Nat.not_lt_zero x hlt
          · apply ih (Nat.succ.inj hlength) hys.2 hlt

/-- Fractions with as many groups are in the order of their groups, if the end mark is less than
every numeral. -/
theorem trimmed_lt_iff
    (hstop : ∀ group < numerals.base ^ width, ∀ us, stop < numerals.write width group ++ us)
    {xs ys : List ℕ} (hlength : xs.length = ys.length)
    (hxs : ∀ x ∈ xs, x < numerals.base ^ width) (hys : ∀ y ∈ ys, y < numerals.base ^ width) :
  trimmed numerals width stop xs < trimmed numerals width stop ys ↔ xs < ys
  := by
  induction xs generalizing ys with
  | nil =>
      obtain rfl := List.length_eq_zero_iff.mp hlength.symm
      simp
  | cons x xs ih =>
      cases ys with
      | nil => cases hlength
      | cons y ys =>
          rw [List.forall_mem_cons] at hxs hys
          rw [trimmed, trimmed]
          by_cases hzeros : ∀ g ∈ x :: xs, g = 0
          · rw [if_pos hzeros, zeros_lt_iff hlength hzeros]
            split
            case isTrue hzeros' =>
              apply iff_of_false (lt_irrefl stop)
              intro hnot
              apply hnot hzeros'
            case isFalse hsome => apply iff_of_true (hstop y hys.1 _) hsome
          · rw [if_neg hzeros]
            split
            case isTrue hzeros' =>
              apply iff_of_false _ (not_lt_zeros hlength hzeros')
              apply not_lt_of_gt (hstop x hxs.1 _)
            case isFalse hsome =>
              rw [write_append_lt_iff hxs.1 hys.1, ih (Nat.succ.inj hlength) hxs.2 hys.2,
                List.cons_lt_cons_iff]

end Trimmed

end Numerals
