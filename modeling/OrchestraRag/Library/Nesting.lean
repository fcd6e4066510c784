import Mathlib.Data.List.Infix
import Mathlib.Order.Basic

/-!
# Nested intervals

A position in a tree is the list of the indices of the children on the way down to it.  Of two
positions one may be below the other, or one may come before the other, where the ways to them
part.  When intervals at the positions of a tree are nested, those below lie inside and those
before end before.
-/

/-! ### Intervals -/

/-- An interval of an order, by its ends. -/
structure Span (τ : Type*) where
  start : τ
  stop : τ

namespace Span

variable {τ : Type*} [Preorder τ] {a b c d : Span τ}

/-- The interval lies inside the other. -/
def Within (a b : Span τ) : Prop :=
  b.start ≤ a.start ∧ a.stop ≤ b.stop

/-- The interval ends before the other starts. -/
def Precedes (a b : Span τ) : Prop :=
  a.stop ≤ b.start

instance [DecidableLE τ] (a b : Span τ) : Decidable (a.Within b) :=
  inferInstanceAs (Decidable (b.start ≤ a.start ∧ a.stop ≤ b.stop))

instance [DecidableLE τ] (a b : Span τ) : Decidable (a.Precedes b) :=
  inferInstanceAs (Decidable (a.stop ≤ b.start))

theorem Within.refl (a : Span τ) :
  a.Within a
  := ⟨le_rfl, le_rfl⟩

theorem Within.trans (hab : a.Within b) (hbc : b.Within c) :
  a.Within c
  := ⟨hbc.1.trans hab.1, hab.2.trans hbc.2⟩

/-- What lies inside keeps the order. -/
theorem Precedes.of_within (h : a.Precedes b) (hc : c.Within a) (hd : d.Within b) :
  c.Precedes d
  := (hc.2.trans h).trans hd.1

end Span

/-! ### Positions -/

/-- The position is below the other, at one of its children or deeper. -/
def Below (p q : List ℕ) : Prop :=
  ∃ i, p ++ [i] <+: q

/-- The ways to the positions part, and that to the first turns to the earlier child. -/
def Before (p q : List ℕ) : Prop :=
  ∃ start i j, i < j ∧ start ++ [i] <+: p ∧ start ++ [j] <+: q

section Positions

variable {p p' q q' r : List ℕ}

theorem Below.isPrefix (h : Below p q) :
  p <+: q
  := by
  obtain ⟨i, h⟩ := h
  apply (List.prefix_append p [i]).trans h

theorem Below.ne (h : Below p q) :
  p ≠ q
  := by
  obtain ⟨i, h⟩ := h
  rintro rfl
  have hlength := h.length_le
  rw [List.length_append, List.length_singleton] at hlength
  omega

theorem Below.trans_isPrefix (h : Below p q) (hqr : q <+: r) :
  Below p r
  := by
  obtain ⟨i, h⟩ := h
  use i
  apply h.trans hqr

theorem Below.of_isPrefix (hpq : p <+: q) (h : Below q r) :
  Below p r
  := by
  obtain ⟨i, h⟩ := h
  obtain ⟨rest, rfl⟩ := hpq
  cases rest with
  | nil =>
      rw [List.append_nil] at h
      use i
  | cons k rest =>
      use k
      apply List.IsPrefix.trans _ h
      use rest ++ [i]
      rw [List.append_assoc, List.append_assoc]
      rfl

/-- What is below keeps the order. -/
theorem Before.of_isPrefix (h : Before p q) (hp : p <+: p') (hq : q <+: q') :
  Before p' q'
  := by
  obtain ⟨start, i, j, hlt, hi, hj⟩ := h
  use start, i, j, hlt, hi.trans hp
  apply hj.trans hq

theorem Before.ne (h : Before p q) :
  p ≠ q
  := by
  obtain ⟨start, i, j, hlt, hi, hj⟩ := h
  rintro rfl
  have hlength : (start ++ [i]).length = (start ++ [j]).length := by
    rw [List.length_append, List.length_append]
    rfl
  have heq := (List.prefix_of_prefix_length_le hi hj hlength.le).eq_of_length hlength
  rw [List.append_right_inj, List.singleton_inj] at heq
  omega

end Positions

/-! ### Intervals at positions -/

/-- The intervals at the positions of a tree: one below another lies inside it, and those of
siblings are in order. -/
structure Nested {τ : Type*} [Preorder τ] (span : List ℕ → Option (Span τ)) : Prop where
  within : ∀ p i a, span (p ++ [i]) = some a → ∃ b, span p = some b ∧ a.Within b
  precedes : ∀ p i j a b, i < j → span (p ++ [i]) = some a → span (p ++ [j]) = some b →
    a.Precedes b

namespace Nested

variable {τ : Type*} [Preorder τ] {span : List ℕ → Option (Span τ)} {p q : List ℕ}
  {a b : Span τ}

theorem within_of_append (h : Nested span) {rest : List ℕ} (ha : span (p ++ rest) = some a) :
  ∃ b, span p = some b ∧ a.Within b
  := by
  induction rest generalizing p with
  | nil =>
      rw [List.append_nil] at ha
      exact ⟨a, ha, Span.Within.refl a⟩
  | cons i rest ih =>
      rw [List.append_cons] at ha
      obtain ⟨c, hc, hac⟩ := ih ha
      obtain ⟨b, hb, hcb⟩ := h.within p i c hc
      exact ⟨b, hb, hac.trans hcb⟩

theorem within_of_isPrefix (h : Nested span) (hpq : p <+: q) (hp : span p = some b)
    (hq : span q = some a) :
  a.Within b
  := by
  obtain ⟨rest, rfl⟩ := hpq
  obtain ⟨c, hc, hac⟩ := h.within_of_append hq
  obtain rfl := Option.some.inj (hp.symm.trans hc)
  apply hac

theorem precedes_of_before (h : Nested span) (hpq : Before p q) (hp : span p = some a)
    (hq : span q = some b) :
  a.Precedes b
  := by
  obtain ⟨start, i, j, hlt, ⟨tail, rfl⟩, ⟨rest, rfl⟩⟩ := hpq
  obtain ⟨c, hc, hac⟩ := h.within_of_append hp
  obtain ⟨d, hd, hbd⟩ := h.within_of_append hq
  apply (h.precedes start i j c d hlt hc hd).of_within hac hbd

end Nested
