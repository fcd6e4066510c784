import Mathlib.Data.List.Basic

/-!
# Escaping

An escaping replaces each special symbol of a word by a code, which is longer than one symbol.
A word is its own encoding exactly when it has no special symbol.  Where no code has a separator,
a word is split before or after it is encoded.
-/

/-- Special symbols, and the words they are replaced by. -/
structure Escaping (α : Type) where
  special : α → Bool
  code : α → List α
  long : ∀ a, special a → 1 < (code a).length

namespace Escaping

variable {α : Type} (e : Escaping α)

/-- What a symbol is replaced by. -/
def encodeSymbol (a : α) : List α :=
  if e.special a then e.code a else [a]

/-- The encoding of a word. -/
def encode (as : List α) : List α :=
  as.flatMap e.encodeSymbol

theorem encode_cons (a : α) (as : List α) :
  e.encode (a :: as) = e.encodeSymbol a ++ e.encode as
  := List.flatMap_cons

theorem encode_append (as bs : List α) :
  e.encode (as ++ bs) = e.encode as ++ e.encode bs
  := List.flatMap_append

variable {e}

/-- A word without special symbols is not changed. -/
theorem encode_of_plain {as : List α} (h : ∀ a ∈ as, ¬ e.special a) :
  e.encode as = as
  := by
  induction as with
  | nil => rfl
  | cons a as ih =>
      rw [List.forall_mem_cons] at h
      rw [encode_cons, encodeSymbol, if_neg h.1, ih h.2, List.singleton_append]

/-- Encoding does not make a word shorter, and makes it longer if it has a special symbol. -/
theorem length_encode (as : List α) :
  as.length ≤ (e.encode as).length ∧ ((∃ a ∈ as, e.special a) → as.length < (e.encode as).length)
  := by
  induction as with
  | nil =>
      constructor
      · apply Nat.le_refl
      · rintro ⟨a, ⟨⟩, -⟩
  | cons a as ih =>
      rw [encode_cons, encodeSymbol, List.length_append, List.length_cons]
      split
      case isTrue hspecial =>
        have hlong := e.long a hspecial
        constructor
        · omega
        · intro _
          omega
      case isFalse hplain =>
        rw [List.length_singleton]
        constructor
        · omega
        · rintro ⟨b, hb, hspecial⟩
          rcases List.mem_cons.mp hb with rfl | hb
          · contradiction
          · have hlonger := ih.2 ⟨b, hb, hspecial⟩
            omega

/-- The words that are their own encoding. -/
theorem encode_eq_self_iff {as : List α} :
  e.encode as = as ↔ ∀ a ∈ as, ¬ e.special a
  := by
  constructor
  · intro h a ha hspecial
    have hlonger := (@length_encode _ e as).2 ⟨a, ha, hspecial⟩
    rw [h] at hlonger
    apply Nat.lt_irrefl _ hlonger
  · apply encode_of_plain

/-- What holds of the codes and of the plain symbols holds of the symbols of an encoding. -/
theorem forall_mem_encode {p : α → Prop} (hcode : ∀ a, e.special a → ∀ b ∈ e.code a, p b)
    (hplain : ∀ a, ¬ e.special a → p a) (as : List α) :
  ∀ b ∈ e.encode as, p b
  := by
  intro b hb
  obtain ⟨a, -, hb⟩ := List.mem_flatMap.mp hb
  rw [encodeSymbol] at hb
  split at hb
  case isTrue hspecial => apply hcode a hspecial b hb
  case isFalse hspecial =>
    rw [List.mem_singleton.mp hb]
    apply hplain a hspecial

/-- A word without separators stays with what follows it. -/
theorem splitOnP_append_of_forall {p : α → Bool} {as : List α} (h : ∀ a ∈ as, ¬ p a)
    (bs : List α) :
  (as ++ bs).splitOnP p = (bs.splitOnP p).modifyHead (as ++ ·)
  := by
  induction as with
  | nil =>
      rw [List.nil_append]
      cases bs.splitOnP p with
      | nil => rfl
      | cons word words => rfl
  | cons a as ih =>
      rw [List.forall_mem_cons] at h
      rw [List.cons_append, List.splitOnP_cons_eq_if_modifyHead, if_neg h.1, ih h.2,
        List.modifyHead_modifyHead]
      rfl

/-- Encoding and splitting commute, if separators are plain and no code has one. -/
theorem splitOnP_encode {p : α → Bool} (hcode : ∀ a, e.special a → ∀ b ∈ e.code a, ¬ p b)
    (hplain : ∀ a, p a → ¬ e.special a) (as : List α) :
  (e.encode as).splitOnP p = (as.splitOnP p).map e.encode
  := by
  induction as with
  | nil => rfl
  | cons a as ih =>
      rw [encode_cons, List.splitOnP_cons_eq_if_modifyHead]
      split
      case isTrue hseparator =>
        rw [encodeSymbol, if_neg (hplain a hseparator), List.singleton_append,
          List.splitOnP_cons_eq_if_modifyHead, if_pos hseparator, ih]
        rfl
      case isFalse hordinary =>
        have hsymbol : ∀ b ∈ e.encodeSymbol a, ¬ p b := by
          rw [encodeSymbol]
          split
          case isTrue hspecial => apply hcode a hspecial
          case isFalse hspecial =>
            intro b hb
            rw [List.mem_singleton.mp hb]
            apply hordinary
        rw [splitOnP_append_of_forall hsymbol, ih]
        cases as.splitOnP p with
        | nil => rfl
        | cons word words =>
            rw [List.modifyHead_cons, List.map_cons, List.modifyHead_cons, List.map_cons,
              encode_cons]

end Escaping
