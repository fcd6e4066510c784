import Mathlib.Algebra.GroupWithZero.Nat
import Mathlib.Data.List.Basic
import Mathlib.Data.List.Lex
import Mathlib.Data.Char

/-!
# Byte offsets into UTF-8 text

A text is the list of its characters.  A byte offset into its UTF-8 encoding may fall
inside a character, and then the text cannot be cut there: `splitAtByte` cuts a text where
it can, which is at the `IsBoundary` offsets.
-/

namespace Utf8

/-- The length in bytes of the UTF-8 encoding of a text. -/
def byteLength (cs : List Char) : ℕ :=
  (cs.map Char.utf8Size).sum

/-- The offset `i` lies between two characters, or at an end of the text. -/
def IsBoundary (cs : List Char) (i : ℕ) : Prop :=
  ∃ pre, pre <+: cs ∧ byteLength pre = i

/-- The text before and after the byte offset `i`. -/
def splitAtByte (i : ℕ) : List Char → Option (List Char × List Char)
  | [] => if i = 0 then some ([], []) else none
  | c :: cs =>
      if i = 0 then some ([], c :: cs)
      else if c.utf8Size ≤ i then
        (splitAtByte (i - c.utf8Size) cs).map (fun (pre, post) => (c :: pre, post))
      else none

/-- The text between two byte offsets. -/
def slice (start stop : ℕ) (cs : List Char) : Option (List Char) := do
  guard (start ≤ stop)
  let (_, post) ← splitAtByte start cs
  let (mid, _) ← splitAtByte (stop - start) post
  pure mid

@[simp]
theorem byteLength_nil :
  byteLength [] = 0
  := rfl

@[simp]
theorem byteLength_cons (c : Char) (cs : List Char) :
  byteLength (c :: cs) = c.utf8Size + byteLength cs
  := rfl

@[simp]
theorem byteLength_append (cs cs' : List Char) :
  byteLength (cs ++ cs') = byteLength cs + byteLength cs'
  := by
  rw [byteLength, List.map_append, List.sum_append]
  rfl

theorem byteLength_eq_zero_iff {cs : List Char} :
  byteLength cs = 0 ↔ cs = []
  := by
  cases cs with
  | nil => exact iff_of_true rfl rfl
  | cons c cs =>
      have hpos := Char.utf8Size_pos c
      rw [byteLength_cons]
      constructor
      · intro h
        omega
      · rintro ⟨⟩

/-- A cut separates the text at its offset. -/
theorem splitAtByte_eq_some {i : ℕ} {cs pre post : List Char} :
  splitAtByte i cs = some (pre, post) ↔ cs = pre ++ post ∧ byteLength pre = i
  := by
  induction cs generalizing i pre with
  | nil =>
      rw [splitAtByte]
      constructor
      · intro h
        split at h
        · cases h
          exact ⟨rfl, by simp [*]⟩
        · cases h
      · rintro ⟨h, rfl⟩
        obtain ⟨rfl, rfl⟩ := List.append_eq_nil_iff.mp h.symm
        rfl
  | cons c cs ih =>
      have hpos : 0 < c.utf8Size := Char.utf8Size_pos c
      rw [splitAtByte]
      constructor
      · intro h
        split at h
        · cases h
          exact ⟨rfl, by simp [*]⟩
        · split at h
          · obtain ⟨⟨pre', post'⟩, hsplit, heq⟩ := Option.map_eq_some_iff.mp h
            cases heq
            obtain ⟨rfl, hlen⟩ := ih.mp hsplit
            constructor
            · rfl
            · rw [byteLength_cons, hlen]
              omega
          · cases h
      · rintro ⟨h, rfl⟩
        cases pre with
        | nil =>
            rw [List.nil_append] at h
            rw [h]
            rfl
        | cons c' pre =>
            rw [List.cons_append] at h
            obtain ⟨rfl, rfl⟩ := List.cons.inj h
            have hsplit : splitAtByte (byteLength pre) (pre ++ post) = some (pre, post) :=
              ih.mpr ⟨rfl, rfl⟩
            rw [byteLength_cons, if_neg (by omega), if_pos (by omega), Nat.add_sub_cancel_left,
              hsplit]
            rfl

/-- A text can be cut exactly at its boundaries. -/
theorem splitAtByte_ne_none {i : ℕ} {cs : List Char} :
  splitAtByte i cs ≠ none ↔ IsBoundary cs i
  := by
  rw [Option.ne_none_iff_exists']
  constructor
  · rintro ⟨⟨pre, post⟩, h⟩
    obtain ⟨rfl, hlen⟩ := splitAtByte_eq_some.mp h
    exact ⟨pre, List.prefix_append pre post, hlen⟩
  · rintro ⟨pre, ⟨post, rfl⟩, hlen⟩
    exact ⟨(pre, post), splitAtByte_eq_some.mpr ⟨rfl, hlen⟩⟩

/-- A text has one beginning of each length. -/
theorem append_inj_of_byteLength {pre post pre' post' : List Char}
    (h : pre ++ post = pre' ++ post') (hlength : byteLength pre = byteLength pre') :
  pre = pre' ∧ post = post'
  := by
  have hcut : splitAtByte (byteLength pre) (pre ++ post) = some (pre, post) :=
    splitAtByte_eq_some.mpr ⟨rfl, rfl⟩
  have hcut' : splitAtByte (byteLength pre) (pre ++ post) = some (pre', post') :=
    splitAtByte_eq_some.mpr ⟨h, hlength.symm⟩
  apply Prod.mk.inj (Option.some.inj (hcut.symm.trans hcut'))

/-- A slice is the text between two boundaries. -/
theorem slice_eq_some {start stop : ℕ} {cs mid : List Char} :
  slice start stop cs = some mid
    ↔ ∃ pre post, cs = pre ++ (mid ++ post) ∧ byteLength pre = start
      ∧ byteLength (pre ++ mid) = stop
  := by
  rw [slice]
  constructor
  · intro h
    obtain ⟨_, hguard, h⟩ := Option.bind_eq_some_iff.mp h
    have hle : start ≤ stop := by
      by_contra hlt
      rw [guard, if_neg hlt] at hguard
      cases hguard
    obtain ⟨⟨pre, rest⟩, hstart, h⟩ := Option.bind_eq_some_iff.mp h
    obtain ⟨⟨mid', post⟩, hstop, h⟩ := Option.bind_eq_some_iff.mp h
    obtain rfl := Option.some.inj h
    obtain ⟨rfl, rfl⟩ := splitAtByte_eq_some.mp hstart
    obtain ⟨rfl, hlength⟩ := splitAtByte_eq_some.mp hstop
    refine ⟨pre, post, rfl, rfl, ?_⟩
    rw [byteLength_append]
    omega
  · rintro ⟨pre, post, rfl, rfl, rfl⟩
    have hlength : byteLength (pre ++ mid) - byteLength pre = byteLength mid := by
      rw [byteLength_append]
      omega
    have hstart : splitAtByte (byteLength pre) (pre ++ (mid ++ post)) = some (pre, mid ++ post) :=
      splitAtByte_eq_some.mpr ⟨rfl, rfl⟩
    have hstop : splitAtByte (byteLength mid) (mid ++ post) = some (mid, post) :=
      splitAtByte_eq_some.mpr ⟨rfl, rfl⟩
    have hguard : guard (byteLength pre ≤ byteLength (pre ++ mid)) = some () := by
      apply if_pos
      rw [byteLength_append]
      omega
    apply Option.bind_eq_some_iff.mpr
    use (), hguard
    apply Option.bind_eq_some_iff.mpr
    use (pre, mid ++ post), hstart
    rw [hlength]
    apply Option.bind_eq_some_iff.mpr
    exact ⟨(mid, post), hstop, rfl⟩

/-! ### The order of bytes -/

/-- The UTF-8 encoding of a text. -/
def bytes (cs : List Char) : List UInt8 :=
  cs.flatMap String.utf8EncodeChar

theorem ofNat_lt_iff {m n : ℕ} (hm : m < 256) (hn : n < 256) :
  UInt8.ofNat m < UInt8.ofNat n ↔ m < n
  := by
  rw [UInt8.lt_iff_toNat_lt, UInt8.toNat_ofNat', UInt8.toNat_ofNat', Nat.mod_eq_of_lt hm,
    Nat.mod_eq_of_lt hn]

theorem ofNat_eq_iff {m n : ℕ} (hm : m < 256) (hn : n < 256) :
  UInt8.ofNat m = UInt8.ofNat n ↔ m = n
  := by
  rw [← UInt8.toNat_inj, UInt8.toNat_ofNat', UInt8.toNat_ofNat', Nat.mod_eq_of_lt hm,
    Nat.mod_eq_of_lt hn]

/-- The encodings of two characters are told apart by the bytes that both have. -/
theorem encode_lt_encode {c d : Char} (h : c < d) (us vs : List UInt8) :
  String.utf8EncodeChar c ++ us < String.utf8EncodeChar d ++ vs
  := by
  have hlt : c.val.toNat < d.val.toNat := h
  have hmax : d.val.toNat < 0x110000 := by
    rcases d.valid with hlow | hhigh
    · have hlow : d.val.toNat < 0xd800 := hlow
      omega
    · apply hhigh.2
  have hdigits (k : ℕ) (hk : k < 0x110000) :
      262144 * (k / 262144 % 8) + 4096 * (k / 4096 % 64) + 64 * (k / 64 % 64) + k % 64 = k := by
    omega
  rw [String.utf8EncodeChar, String.utf8EncodeChar]
  generalize c.val.toNat = m at *
  generalize d.val.toNat = n at *
  have hm := hdigits m (hlt.trans hmax)
  have hn := hdigits n hmax
  -- The lengths of the two encodings.
  split_ifs
  all_goals
    simp (disch := omega) only [List.cons_append, List.nil_append, List.cons_lt_cons_iff,
      ofNat_lt_iff, ofNat_eq_iff]
    omega

theorem bytes_lt_bytes {cs cs' : List Char} (h : cs < cs') :
  bytes cs < bytes cs'
  := by
  induction h with
  | nil =>
      rename_i d ds
      obtain ⟨b, bs, hbytes⟩ : ∃ b bs, String.utf8EncodeChar d = b :: bs := by
        apply List.exists_cons_of_ne_nil
        apply String.utf8EncodeChar_ne_nil
      rw [bytes, List.flatMap_nil, bytes, List.flatMap_cons, hbytes, List.cons_append]
      apply List.Lex.nil
  | rel hlt =>
      rw [bytes, bytes, List.flatMap_cons, List.flatMap_cons]
      apply encode_lt_encode hlt
  | cons _ ih =>
      rw [bytes, bytes, List.flatMap_cons, List.flatMap_cons]
      apply List.append_left_lt ih

/-- Texts are in the order of their bytes. -/
theorem bytes_lt_iff {cs cs' : List Char} :
  bytes cs < bytes cs' ↔ cs < cs'
  := by
  constructor
  · intro h
    rcases lt_trichotomy cs cs' with hlt | rfl | hgt
    · apply hlt
    · apply absurd h (List.lt_irrefl _)
    · apply absurd h (List.lt_asymm (bytes_lt_bytes hgt))
  · apply bytes_lt_bytes

/-! ### White space -/

/-- The characters with the property `White_Space`. -/
def isWhitespace (c : Char) : Bool :=
  let n := c.toNat
  (9 ≤ n && n ≤ 13) || n == 0x20 || n == 0x85 || n == 0xA0 || n == 0x1680
    || (0x2000 ≤ n && n ≤ 0x200A) || n == 0x2028 || n == 0x2029 || n == 0x202F || n == 0x205F
    || n == 0x3000

/-- The text without the characters at its end that satisfy `p`. -/
def trimEndMatches (p : Char → Bool) (cs : List Char) : List Char :=
  (cs.reverse.dropWhile p).reverse

/-- The text without white space at its ends. -/
def trim (cs : List Char) : List Char :=
  trimEndMatches isWhitespace (cs.dropWhile isWhitespace)

/-- The text without the copies of a pattern it starts with. -/
def trimStartText (pattern cs : List Char) : List Char :=
  if pattern ≠ [] ∧ pattern <+: cs then trimStartText pattern (cs.drop pattern.length) else cs
termination_by cs.length
decreasing_by
  rename_i h
  obtain ⟨hpattern, hinit⟩ := h
  have hpos := List.length_pos_of_ne_nil hpattern
  have hle := hinit.length_le
  rw [List.length_drop]
  omega

/-! ### Lines -/

/-- A line without the carriage return before its newline. -/
def stripCarriageReturn (line : List Char) : List Char :=
  if line.getLast? = some '\r' then line.dropLast else line

/-- `str::lines`: every line without its newline; what follows the last newline is a line unless
it is empty. -/
def lines (cs : List Char) : List (List Char) :=
  let parts := cs.splitOn '\n'
  parts.dropLast.map stripCarriageReturn ++ parts.getLast?.toList.filter (· ≠ [])

end Utf8
