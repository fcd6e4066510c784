import Mathlib.Data.String.Basic
import OrchestraRag.Library.Calendar
import OrchestraRag.Library.Numerals
import OrchestraRag.Library.Utf8

/-!
# Timestamps

`to_rfc3339` prints an instant with as few digits of its fraction as are exact, none, 3, 6 or 9,
and then the offset.  Although the texts differ in length, they are in the order of time
(`toRfc3339_lt_iff`).
-/

namespace OrchestraRag

open Calendar

/-- Decimal digits. -/
def decimal : Numerals Char where
  base := 10
  digit := Nat.digitChar
  digit_lt_iff := by decide

/-- The offset of UTC. -/
def utcOffset : List Char :=
  "+00:00".toList

/-- The fraction of a second, in the fewest digits of 0, 3, 6 and 9 that are exact. -/
def fraction (nanos : ℕ) : List Char :=
  if nanos = 0 then []
  else if nanos % 1000000 = 0 then '.' :: decimal.write 3 (nanos / 1000000)
  else if nanos % 1000 = 0 then '.' :: decimal.write 6 (nanos / 1000)
  else '.' :: decimal.write 9 nanos

/-- `DateTime::to_rfc3339`. -/
def toRfc3339 (t : Instant) : String :=
  String.ofList (decimal.write 4 t.year ++ '-' :: (decimal.write 2 t.month ++ '-' ::
    (decimal.write 2 t.day ++ 'T' :: (decimal.write 2 t.hour ++ ':' ::
    (decimal.write 2 t.minute ++ ':' :: (decimal.write 2 t.second ++
    (fraction t.nanos ++ utcOffset)))))))

/-! ### Fractions -/

/-- The offset is less than a digit. -/
theorem utcOffset_lt_write (n : ℕ) (h : n < decimal.base ^ 3) (us : List Char) :
  utcOffset < decimal.write 3 n ++ us
  := by
  have hplus : ∀ digit < 10, '+' < Nat.digitChar digit := by decide
  have hdigit : n / decimal.base ^ 2 < 10 := Nat.div_lt_of_lt_mul h
  rw [Numerals.write, List.cons_append, utcOffset]
  apply List.Lex.rel (hplus _ hdigit)

/-- The groups of three digits of a fraction. -/
def groups (nanos : ℕ) : List ℕ :=
  [nanos / 1000000, nanos / 1000 % 1000, nanos % 1000]

theorem lt_of_mem_groups {nanos : ℕ} (h : nanos < 10 ^ 9) :
  ∀ group ∈ groups nanos, group < decimal.base ^ 3
  := by
  have hbase : decimal.base ^ 3 = 1000 := rfl
  simp only [groups, List.forall_mem_cons, hbase]
  refine ⟨?_, ?_, ?_, ?_⟩
  · omega
  · omega
  · omega
  · rintro group ⟨⟩

theorem groups_lt_iff (m n : ℕ) :
  groups m < groups n ↔ m < n
  := by
  have hdiv (n : ℕ) : n / 1000000 = n / 1000 / 1000 := by omega
  have hnil : ¬ ([] : List ℕ) < [] := lt_irrefl []
  simp only [groups, List.cons_lt_cons_iff, hnil, and_false, or_false]
  rw [hdiv m, hdiv n]
  omega

/-- A fraction is that of its groups, without the zeros at the end. -/
theorem fraction_eq {nanos : ℕ} (h : nanos < 10 ^ 9) (hpos : nanos ≠ 0) :
  fraction nanos ++ utcOffset = '.' :: Numerals.trimmed decimal 3 utcOffset (groups nanos)
  := by
  have hsix (n : ℕ) (hn : n < 10 ^ 6) : decimal.write 6 n
      = decimal.write 3 (n / 1000) ++ decimal.write 3 (n % 1000) :=
    @Numerals.write_add _ _ decimal 3 3 n hn
  have hnine : decimal.write 9 nanos
      = decimal.write 3 (nanos / 1000000) ++ decimal.write 6 (nanos % 1000000) :=
    @Numerals.write_add _ _ decimal 3 6 nanos h
  have hsome : ¬ ∀ group ∈ groups nanos, group = 0 := by
    rw [groups, List.forall_mem_cons, List.forall_mem_cons, List.forall_mem_singleton]
    omega
  rw [groups] at hsome ⊢
  rw [Numerals.trimmed, if_neg hsome, fraction, if_neg hpos]
  by_cases hmillis : nanos % 1000000 = 0
  · have hzeros : ∀ group ∈ [nanos / 1000 % 1000, nanos % 1000], group = 0 := by
      rw [List.forall_mem_cons, List.forall_mem_singleton]
      omega
    rw [if_pos hmillis, Numerals.trimmed, if_pos hzeros]
    rfl
  · have hsome' : ¬ ∀ group ∈ [nanos / 1000 % 1000, nanos % 1000], group = 0 := by
      rw [List.forall_mem_cons, List.forall_mem_singleton]
      omega
    rw [if_neg hmillis, Numerals.trimmed, if_neg hsome', Numerals.trimmed]
    by_cases hmicros : nanos % 1000 = 0
    · have hzero : ∀ group ∈ [nanos % 1000], group = 0 := by
        rw [List.forall_mem_singleton]
        omega
      have hlt : nanos / 1000 < 10 ^ 6 := by omega
      have hdiv : nanos / 1000 / 1000 = nanos / 1000000 := by omega
      rw [if_pos hmicros, if_pos hzero, hsix _ hlt, hdiv, List.cons_append, List.append_assoc]
    · have hnone : ¬ ∀ group ∈ [nanos % 1000], group = 0 := by
        rw [List.forall_mem_singleton]
        omega
      have hlt : nanos % 1000000 < 10 ^ 6 := by omega
      have hdiv : nanos % 1000000 / 1000 = nanos / 1000 % 1000 := by omega
      have hmod : nanos % 1000000 % 1000 = nanos % 1000 := by omega
      rw [if_neg hmicros, if_neg hnone, hnine, hsix _ hlt, hdiv, hmod, Numerals.trimmed,
        List.cons_append, List.append_assoc, List.append_assoc]

theorem fraction_lt_iff {m n : ℕ} (hm : m < 10 ^ 9) (hn : n < 10 ^ 9) :
  fraction m ++ utcOffset < fraction n ++ utcOffset ↔ m < n
  := by
  have hpoint (us : List Char) : utcOffset < '.' :: us := by
    apply List.Lex.rel
    decide
  have hnone : fraction 0 ++ utcOffset = utcOffset := rfl
  rcases Nat.eq_zero_or_pos m with rfl | hm'
  · rcases Nat.eq_zero_or_pos n with rfl | hn'
    · simp
    · rw [hnone, fraction_eq hn hn'.ne']
      apply iff_of_true (hpoint _) hn'
  · rw [fraction_eq hm hm'.ne']
    rcases Nat.eq_zero_or_pos n with rfl | hn'
    · rw [hnone]
      apply iff_of_false (not_lt_of_gt (hpoint _)) (Nat.not_lt_zero m)
    · have hlength : (groups m).length = (groups n).length := rfl
      rw [fraction_eq hn hn'.ne', List.cons_lt_cons_self, Numerals.trimmed_lt_iff
        utcOffset_lt_write hlength (lt_of_mem_groups hm) (lt_of_mem_groups hn), groups_lt_iff]

/-! ### The order of texts -/

/-- Texts are in the order of the instants. -/
theorem toRfc3339_lt_iff (s t : Instant) :
  toRfc3339 s < toRfc3339 t ↔ s < t
  := by
  have htwo {n : ℕ} (h : n < 100) : n < decimal.base ^ 2 := h
  have hmonth (t : Instant) : t.month < 100 := by
    have hle := t.month_le
    omega
  have hday (t : Instant) : t.day < 100 := by
    have hle := t.day_le.trans (daysInMonth_le t.year t.month)
    omega
  have hhour (t : Instant) : t.hour < 100 := by
    have hlt := t.hour_lt
    omega
  have hminute (t : Instant) : t.minute < 100 := by
    have hlt := t.minute_lt
    omega
  have hsecond (t : Instant) : t.second < 100 := by
    have hlt := t.second_lt
    omega
  rw [String.lt_iff_toList_lt, toRfc3339, toRfc3339, String.toList_ofList, String.toList_ofList,
    Numerals.write_append_lt_iff s.year_lt t.year_lt, List.cons_lt_cons_self,
    Numerals.write_append_lt_iff (htwo (hmonth s)) (htwo (hmonth t)), List.cons_lt_cons_self,
    Numerals.write_append_lt_iff (htwo (hday s)) (htwo (hday t)), List.cons_lt_cons_self,
    Numerals.write_append_lt_iff (htwo (hhour s)) (htwo (hhour t)), List.cons_lt_cons_self,
    Numerals.write_append_lt_iff (htwo (hminute s)) (htwo (hminute t)), List.cons_lt_cons_self,
    Numerals.write_append_lt_iff (htwo (hsecond s)) (htwo (hsecond t)),
    fraction_lt_iff s.nanos_lt t.nanos_lt, Instant.lt_iff_before]
  exact Iff.rfl

theorem toRfc3339_le_iff (s t : Instant) :
  toRfc3339 s ≤ toRfc3339 t ↔ s ≤ t
  := by
  rw [← String.not_lt, toRfc3339_lt_iff, Instant.le_iff_not_lt]

/-- The bytes of the texts are in the order of the instants. -/
theorem bytes_toRfc3339_lt_iff (s t : Instant) :
  Utf8.bytes (toRfc3339 s).toList < Utf8.bytes (toRfc3339 t).toList ↔ s < t
  := by
  rw [Utf8.bytes_lt_iff, ← String.lt_iff_toList_lt, toRfc3339_lt_iff]

end OrchestraRag
