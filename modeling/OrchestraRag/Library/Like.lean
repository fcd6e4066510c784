import Mathlib.Data.List.Infix
import Mathlib.Data.List.TakeWhile
import Mathlib.Data.String.Basic
import OrchestraRag.Library.Sql

/-!
# Patterns around a keyword

The pattern `%keyword%` matches the texts that contain the keyword, ASCII letters in either case,
when neither has a character that `LIKE` reads in its own way (`like_around_iff`).
-/

namespace Sql

/-! ### Infixes -/

/-- A list without an element lies on one side of it. -/
theorem isInfix_append_cons_iff {α : Type} {d : α} {word before after : List α} (h : d ∉ word) :
  word <:+: before ++ d :: after ↔ word <:+: before ∨ word <:+: after
  := by
  constructor
  · intro hword
    obtain ⟨left, right, heq⟩ := hword
    rw [List.append_assoc, List.append_eq_append_iff] at heq
    rcases heq with ⟨rest, rfl, heq⟩ | ⟨rest, rfl, heq⟩
    · rw [List.append_eq_append_iff] at heq
      rcases heq with ⟨rest', rfl, -⟩ | ⟨rest', rfl, heq⟩
      · apply Or.inl
        exact ⟨left, rest', List.append_assoc _ _ _⟩
      · cases rest' with
        | nil =>
            apply Or.inl
            rw [List.append_nil]
            exact ⟨left, [], List.append_nil _⟩
        | cons c rest' =>
            obtain ⟨rfl, -⟩ := List.cons.inj heq
            apply absurd _ h
            apply List.mem_append_right _ List.mem_cons_self
    · apply Or.inr
      cases rest with
      | nil =>
          cases word with
          | nil => apply List.nil_infix
          | cons c word =>
              obtain ⟨rfl, -⟩ := List.cons.inj heq
              apply absurd List.mem_cons_self h
      | cons c rest =>
          obtain ⟨-, rfl⟩ := List.cons.inj heq
          exact ⟨rest, right, List.append_assoc _ _ _⟩
  · rintro (hword | hword)
    · apply hword.trans (List.prefix_append _ _).isInfix
    · apply hword.trans
      apply (List.suffix_cons d after).isInfix.trans (List.suffix_append _ _).isInfix

/-- A word without the first element of a list lies in the rest. -/
theorem isInfix_cons_iff_of_notMem {α : Type} {d : α} {word after : List α} (h : d ∉ word)
    (hne : word ≠ []) :
  word <:+: d :: after ↔ word <:+: after
  := by
  have hiff := @isInfix_append_cons_iff α d word [] after h
  rw [List.nil_append, List.infix_nil] at hiff
  rw [hiff]
  apply or_iff_right hne

/-! ### Matching -/

theorem toNat_foldCase (c : Char) :
  (foldCase c).toNat = if 65 ≤ c.toNat ∧ c.toNat ≤ 90 then c.toNat + 32 else c.toNat
  := by
  rw [foldCase]
  delta Char.toLower
  by_cases h : 65 ≤ c.toNat ∧ c.toNat ≤ 90
  · have hupper : c.val ≥ 'A'.val ∧ c.val ≤ 'Z'.val := h
    have hsum : (c.val + ('a'.val - 'A'.val)).toNat = c.toNat + 32 := by
      rw [UInt32.toNat_add]
      apply Nat.mod_eq_of_lt
      apply Nat.lt_of_le_of_lt (Nat.add_le_add_right h.2 32)
      decide
    rw [dif_pos hupper, if_pos h]
    apply hsum
  · have hother : ¬ (c.val ≥ 'A'.val ∧ c.val ≤ 'Z'.val) := h
    rw [dif_neg hother, if_neg h]

/-- A character that is no small letter is matched by itself only. -/
theorem eq_of_foldCase_eq {c d : Char} (hd : d.toNat < 97 ∨ 122 < d.toNat) (h : foldCase c = d) :
  c = d
  := by
  have hcode := toNat_foldCase c
  rw [h] at hcode
  split at hcode
  case isTrue hupper => omega
  case isFalse hother => apply Char.toNat_inj.mp hcode.symm

/-- The word is in the text, ASCII letters in either case. -/
def OccursIn (word text : List Char) : Prop :=
  word.map foldCase <:+: text.map foldCase

instance (word text : List Char) : Decidable (OccursIn word text) :=
  inferInstanceAs (Decidable (word.map foldCase <:+: text.map foldCase))

theorem likeChars_percent {pattern text : List Char} :
  likeChars ('%' :: pattern) text ↔ ∃ rest, rest <:+ text ∧ likeChars pattern rest
  := by
  rw [likeChars.eq_def]
  dsimp only
  rw [if_pos rfl, List.any_eq_true]
  simp only [List.mem_tails]

/-- Characters that stand for themselves match a text that starts with them. -/
theorem likeChars_append {word pattern text : List Char} (h : ∀ c ∈ word, c ≠ '%' ∧ c ≠ '_') :
  likeChars (word ++ pattern) text
    ↔ ∃ found rest, text = found ++ rest ∧ found.map foldCase = word.map foldCase
      ∧ likeChars pattern rest
  := by
  induction word generalizing text with
  | nil =>
      constructor
      · intro hmatch
        exact ⟨[], text, rfl, rfl, hmatch⟩
      · rintro ⟨found, rest, rfl, hfound, hmatch⟩
        rw [List.map_eq_nil_iff.mp hfound]
        apply hmatch
  | cons p word ih =>
      obtain ⟨⟨hpercent, hunderscore⟩, hword⟩ := List.forall_mem_cons.mp h
      rw [List.cons_append, likeChars.eq_def]
      dsimp only
      rw [if_neg hpercent]
      cases text with
      | nil =>
          apply iff_of_false Bool.false_ne_true
          rintro ⟨found, rest, heq, hfound, -⟩
          rw [(List.append_eq_nil_iff.mp heq.symm).1] at hfound
          cases hfound
      | cons c text =>
          dsimp only
          rw [decide_eq_false hunderscore, Bool.false_or, Bool.and_eq_true, beq_iff_eq, ih hword]
          constructor
          · rintro ⟨hc, found, rest, rfl, hfound, hmatch⟩
            use c :: found, rest, rfl
            rw [List.map_cons, List.map_cons, hc, hfound]
            exact ⟨rfl, hmatch⟩
          · rintro ⟨found, rest, heq, hfound, hmatch⟩
            cases found with
            | nil => cases hfound
            | cons c' found =>
                obtain ⟨rfl, rfl⟩ := List.cons.inj heq
                obtain ⟨hc, hfound⟩ := List.cons.inj hfound
                exact ⟨hc.symm, found, rest, rfl, hfound, hmatch⟩

/-- A keyword whose characters stand for themselves matches the texts it occurs in. -/
theorem likeChars_around_iff {word text : List Char} (h : ∀ c ∈ word, c ≠ '%' ∧ c ≠ '_') :
  likeChars ('%' :: (word ++ ['%'])) text ↔ OccursIn word text
  := by
  rw [likeChars_percent]
  constructor
  · rintro ⟨suffix, ⟨left, rfl⟩, hmatch⟩
    obtain ⟨found, rest, rfl, hfound, -⟩ := (likeChars_append h).mp hmatch
    rw [OccursIn, List.map_append, List.map_append, hfound]
    exact ⟨left.map foldCase, rest.map foldCase, List.append_assoc _ _ _⟩
  · rintro ⟨left, right, heq⟩
    obtain ⟨start, rest, rfl, hstart, -⟩ := List.map_eq_append_iff.mp heq.symm
    obtain ⟨before, found, rfl, -, hfound⟩ := List.map_eq_append_iff.mp hstart
    use found ++ rest, ⟨before, (List.append_assoc _ _ _).symm⟩
    apply (likeChars_append h).mpr
    use found, rest, rfl, hfound
    apply likeChars_percent.mpr
    exact ⟨[], List.nil_suffix, rfl⟩

/-! ### Texts -/

/-- The characters that `LIKE` reads in its own way. -/
def IsLikeSpecial (c : Char) : Prop :=
  c = '%' ∨ c = '_' ∨ c = '\x00'

instance (c : Char) : Decidable (IsLikeSpecial c) :=
  inferInstanceAs (Decidable (c = '%' ∨ c = '_' ∨ c = '\x00'))

/-- The pattern around a keyword. -/
def around (keyword : String) : String :=
  "%" ++ keyword ++ "%"

theorem cString_of_notMem {text : String} (h : '\x00' ∉ text.toList) :
  cString text = text.toList
  := by
  rw [cString, List.takeWhile_eq_self_iff]
  intro c hc
  apply bne_iff_ne.mpr
  rintro rfl
  apply h hc

/-- A keyword without special characters matches the texts without NUL that it occurs in. -/
theorem like_around_iff {keyword text : String} (hkeyword : ∀ c ∈ keyword.toList, ¬ IsLikeSpecial c)
    (htext : '\x00' ∉ text.toList) :
  like (around keyword) text ↔ OccursIn keyword.toList text.toList
  := by
  have hchars : (around keyword).toList = '%' :: (keyword.toList ++ ['%']) := by
    rw [around, String.toList_append, String.toList_append]
    rfl
  have hnul : '\x00' ∉ (around keyword).toList := by
    rw [hchars]
    intro hmem
    rcases List.mem_cons.mp hmem with h | hmem
    · cases h
    · rcases List.mem_append.mp hmem with hmem | hmem
      · apply hkeyword _ hmem (Or.inr (Or.inr rfl))
      · cases List.mem_singleton.mp hmem
  rw [like, cString_of_notMem hnul, cString_of_notMem htext, hchars]
  apply likeChars_around_iff
  intro c hc
  constructor
  · intro hpercent
    apply hkeyword c hc (Or.inl hpercent)
  · intro hunderscore
    apply hkeyword c hc (Or.inr (Or.inl hunderscore))

/-! ### Patterns that are too long -/

/-- A word of so many letters. -/
def longWord (n : ℕ) : String :=
  String.ofList (List.replicate n 'a')

theorem utf8ByteSize_longWord (n : ℕ) :
  (longWord n).utf8ByteSize = n
  := by
  rw [longWord, String.utf8ByteSize_ofList]
  induction n with
  | zero => rfl
  | succ n ih =>
      rw [List.replicate_succ, String.utf8Len_cons, ih]
      rfl

/-- The pattern around a word from 49999 letters on is too long. -/
theorem lt_around_longWord {n : ℕ} (h : 49998 < n) :
  maxLikePatternLength < (around (longWord n)).utf8ByteSize
  := by
  have hpercent : "%".utf8ByteSize = 1 := rfl
  rw [around, String.utf8ByteSize_append, String.utf8ByteSize_append, utf8ByteSize_longWord,
    hpercent, maxLikePatternLength]
  omega

end Sql
