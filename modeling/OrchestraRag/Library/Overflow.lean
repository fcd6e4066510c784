import Mathlib.Algebra.Group.Nat.Defs
import OrchestraRag.Library.Outcome

/-!
# Arithmetic that overflows

An addition or multiplication of two `UInt64` that has no result panics in a debug build and
wraps in a release build.
-/

/-- How a program was built. -/
inductive Build where
  | debug
  | release
  deriving DecidableEq

namespace Build

variable {ε : Type}

/-- The result of an operation, which is `exact` without bounds and `wrapped` if it overflows. -/
def checked (build : Build) (exact : ℕ) (wrapped : UInt64) : Outcome ε UInt64 :=
  if exact < 2 ^ 64 then .ok wrapped
  else
    match build with
    | .debug => .error .panicked
    | .release => .ok wrapped

/-- The operator `+`. -/
def add (build : Build) (a b : UInt64) : Outcome ε UInt64 :=
  build.checked (a.toNat + b.toNat) (a + b)

/-- The operator `*`. -/
def mul (build : Build) (a b : UInt64) : Outcome ε UInt64 :=
  build.checked (a.toNat * b.toNat) (a * b)

variable {build : Build} {a b c : UInt64}

theorem add_of_lt (h : a.toNat + b.toNat < 2 ^ 64) :
  (build.add a b : Outcome ε UInt64) = .ok (a + b)
  := if_pos h

theorem add_debug_of_le (h : 2 ^ 64 ≤ a.toNat + b.toNat) :
  (Build.debug.add a b : Outcome ε UInt64) = .error .panicked
  := if_neg (Nat.not_lt.mpr h)

theorem add_release :
  (Build.release.add a b : Outcome ε UInt64) = .ok (a + b)
  := by
  rw [add, checked]
  split
  · rfl
  · rfl

theorem mul_release :
  (Build.release.mul a b : Outcome ε UInt64) = .ok (a * b)
  := by
  rw [mul, checked]
  split
  · rfl
  · rfl

/-- The operation has its unbounded result in every build exactly when it does not overflow. -/
theorem checked_iff {exact : ℕ} {wrapped : UInt64} (h : wrapped.toNat = exact % 2 ^ 64) :
  (∀ build : Build, ∃ c, (build.checked exact wrapped : Outcome ε UInt64) = .ok c
      ∧ c.toNat = exact)
    ↔ exact < 2 ^ 64
  := by
  constructor
  · intro hbuild
    obtain ⟨c, -, hc⟩ := hbuild .release
    rw [← hc]
    apply c.toNat_lt
  · intro hlt build
    use wrapped, if_pos hlt
    rw [h, Nat.mod_eq_of_lt hlt]

theorem mul_iff :
  (∀ build : Build, ∃ c, (build.mul a b : Outcome ε UInt64) = .ok c
      ∧ c.toNat = a.toNat * b.toNat)
    ↔ a.toNat * b.toNat < 2 ^ 64
  := checked_iff (UInt64.toNat_mul a b)

end Build
