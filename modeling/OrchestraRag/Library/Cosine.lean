import Mathlib.Algebra.BigOperators.Group.List.Basic
import Mathlib.Algebra.Order.BigOperators.Ring.Finset
import Mathlib.Algebra.Order.Field.Basic
import Mathlib.Tactic.Ring

/-!
# Cosines

Dot products of lists of numbers of an ordered field, the longer list cut to the length of the
other, and the cosines that they give with a square root (`IsRoot`).  A cosine lies between `-1`
and `1` (`abs_cosine_le_one`), by the inequality of Cauchy and Schwarz, and does not depend on the
lengths of the vectors (`cosine_scale`).
-/

namespace Cosine

variable {K : Type*} [Field K]

/-- The dot product of two vectors. -/
def dot (a b : List K) : K :=
  (List.zipWith (· * ·) a b).sum

/-- A vector whose coordinates are multiplied. -/
def scale (c : K) (a : List K) : List K :=
  a.map (c * ·)

/-- The cosine of two vectors; zero when one of them has no magnitude. -/
def cosine (root : K → K) (a b : List K) : K :=
  dot a b / (root (dot a a) * root (dot b b))

@[simp]
theorem dot_nil_left (b : List K) :
  dot [] b = 0
  := by
  rw [dot, List.zipWith_nil_left, List.sum_nil]

@[simp]
theorem dot_nil_right (a : List K) :
  dot a [] = 0
  := by
  rw [dot, List.zipWith_nil_right, List.sum_nil]

@[simp]
theorem dot_cons (x y : K) (a b : List K) :
  dot (x :: a) (y :: b) = x * y + dot a b
  := by
  rw [dot, List.zipWith_cons_cons, List.sum_cons, dot]

theorem dot_self (a : List K) :
  dot a a = (a.map (fun x => x * x)).sum
  := by
  rw [dot, List.zipWith_self]

theorem dot_comm (a b : List K) :
  dot a b = dot b a
  := by
  rw [dot, dot, List.zipWith_comm_of_comm mul_comm]

theorem dot_scale (c : K) (a b : List K) :
  dot (scale c a) b = c * dot a b
  := by
  induction a generalizing b with
  | nil => simp [scale]
  | cons x a ih =>
      cases b with
      | nil => simp
      | cons y b =>
          have hcons : scale c (x :: a) = c * x :: scale c a := rfl
          rw [hcons, dot_cons, dot_cons, ih]
          ring

theorem dot_scale_self (c : K) (a : List K) :
  dot (scale c a) (scale c a) = c * c * dot a a
  := by
  rw [dot_scale, dot_comm, dot_scale, mul_assoc]

/-- The coordinates may be counted on behind the end of a vector, where they are zero. -/
theorem dot_eq_sum {a : List K} {n : ℕ} (h : a.length ≤ n) (b : List K) :
  dot a b = ∑ i ∈ Finset.range n, a.getD i 0 * b.getD i 0
  := by
  induction n generalizing a b with
  | zero =>
      rw [List.length_eq_zero_iff.mp (Nat.le_zero.mp h)]
      simp
  | succ n ih =>
      cases a with
      | nil => simp
      | cons x a =>
          cases b with
          | nil => simp
          | cons y b =>
              rw [Finset.sum_range_succ', dot_cons, ih (Nat.le_of_succ_le_succ h) b, add_comm]
              rfl

theorem cosine_comm (root : K → K) (a b : List K) :
  cosine root a b = cosine root b a
  := by
  rw [cosine, cosine, dot_comm, mul_comm]

/-! ### Order -/

variable [LinearOrder K] [IsStrictOrderedRing K]

theorem dot_self_nonneg (a : List K) :
  0 ≤ dot a a
  := by
  induction a with
  | nil => simp
  | cons x a ih =>
      rw [dot_cons]
      apply add_nonneg (mul_self_nonneg x) ih

theorem dot_self_ne_zero {a : List K} {x : K} (hx : x ∈ a) (hne : x ≠ 0) :
  dot a a ≠ 0
  := by
  apply ne_of_gt
  induction a with
  | nil => cases hx
  | cons y a ih =>
      rw [dot_cons]
      rcases List.mem_cons.mp hx with rfl | hx
      · apply add_pos_of_pos_of_nonneg (mul_self_pos.mpr hne) (dot_self_nonneg a)
      · apply add_pos_of_nonneg_of_pos (mul_self_nonneg y) (ih hx)

/-- The inequality of Cauchy and Schwarz. -/
theorem dot_mul_self_le (a b : List K) :
  dot a b * dot a b ≤ dot a a * dot b b
  := by
  have ha : a.length ≤ max a.length b.length := le_max_left _ _
  have hb : b.length ≤ max a.length b.length := le_max_right _ _
  rw [dot_eq_sum ha b, dot_eq_sum ha a, dot_eq_sum hb b]
  simp only [← sq]
  apply Finset.sum_mul_sq_le_sq_mul_sq

/-- A square root, of what is not negative. -/
structure IsRoot (root : K → K) : Prop where
  nonneg : ∀ x, 0 ≤ x → 0 ≤ root x
  mul_self : ∀ x, 0 ≤ x → root x * root x = x

namespace IsRoot

variable {root : K → K} (h : IsRoot root)

include h

theorem eq_of_mul_self {x y : K} (hy : 0 ≤ y) (hx : y * y = x) :
  root x = y
  := by
  have hnonneg : 0 ≤ x := hx ▸ mul_self_nonneg y
  apply (mul_self_inj (h.nonneg x hnonneg) hy).mp
  rw [h.mul_self x hnonneg, hx]

/-- A cosine lies between `-1` and `1`. -/
theorem abs_cosine_le_one (a b : List K) :
  |cosine root a b| ≤ 1
  := by
  have ha := dot_self_nonneg a
  have hb := dot_self_nonneg b
  have hroot : 0 ≤ root (dot a a) * root (dot b b) :=
    mul_nonneg (h.nonneg _ ha) (h.nonneg _ hb)
  rw [cosine, abs_div, abs_of_nonneg hroot]
  apply div_le_one_of_le₀ _ hroot
  apply abs_le_of_sq_le_sq _ hroot
  calc dot a b ^ 2
      = dot a b * dot a b := sq _
    _ ≤ dot a a * dot b b := dot_mul_self_le a b
    _ = (root (dot a a) * root (dot a a)) * (root (dot b b) * root (dot b b)) := by
        rw [h.mul_self _ ha, h.mul_self _ hb]
    _ = (root (dot a a) * root (dot b b)) ^ 2 := by ring

/-- A positive factor leaves the cosine. -/
theorem cosine_scale {c : K} (hc : 0 < c) (a b : List K) :
  cosine root (scale c a) b = cosine root a b
  := by
  have ha := dot_self_nonneg a
  have hroot : root (dot (scale c a) (scale c a)) = c * root (dot a a) := by
    apply h.eq_of_mul_self (mul_nonneg hc.le (h.nonneg _ ha))
    rw [dot_scale_self, mul_mul_mul_comm, h.mul_self _ ha]
  rw [cosine, cosine, hroot, dot_scale, mul_assoc, mul_div_mul_left _ _ hc.ne']

/-- The cosine of a vector with itself is `1`, unless it has no magnitude. -/
theorem cosine_self {a : List K} (ha : dot a a ≠ 0) :
  cosine root a a = 1
  := by
  rw [cosine, h.mul_self _ (dot_self_nonneg a), div_self ha]

end IsRoot

end Cosine
