import Mathlib.Data.Bool.AllAny
import Mathlib.Data.List.Basic

/-!
# JSON texts

An array of strings is written as JSON text without blanks, the characters that need it escaped.
Reading allows blanks and all escapes, and gives the array back (`decodeStrings_encodeStrings`).
-/

namespace JsonText

/-! ### Writing -/

/-- A character in a string: quotes, backslashes and control characters are escaped. -/
def escape (c : Char) : List Char :=
  if c = '\x22' then ['\x5c', '\x22']
  else if c = '\x5c' then ['\x5c', '\x5c']
  else if c = '\x08' then ['\x5c', 'b']
  else if c = '\t' then ['\x5c', 't']
  else if c = '\n' then ['\x5c', 'n']
  else if c = '\x0c' then ['\x5c', 'f']
  else if c = '\r' then ['\x5c', 'r']
  else if c.toNat < 32 then
    ['\x5c', 'u', '0', '0', Nat.digitChar (c.toNat / 16), Nat.digitChar (c.toNat % 16)]
  else [c]

def encodeString (text : String) : List Char :=
  '\x22' :: text.toList.flatMap escape ++ ['\x22']

/-- The elements of an array after its first. -/
def encodeMore : List String → List Char
  | [] => [']']
  | text :: texts => ',' :: encodeString text ++ encodeMore texts

def encodeStrings : List String → String
  | [] => "[]"
  | text :: texts => String.ofList ('[' :: encodeString text ++ encodeMore texts)

/-- The character is written as it is. -/
def IsUnescaped (c : Char) : Prop :=
  c ≠ '\x22' ∧ c ≠ '\x5c' ∧ 32 ≤ c.toNat

instance (c : Char) : Decidable (IsUnescaped c) :=
  inferInstanceAs (Decidable (c ≠ '\x22' ∧ c ≠ '\x5c' ∧ 32 ≤ c.toNat))

theorem escape_of_unescaped {c : Char} (h : IsUnescaped c) :
  escape c = [c]
  := by
  obtain ⟨hquote, hbackslash, hcontrol⟩ := h
  have hne : ∀ d : Char, d.toNat < 32 → c ≠ d := by
    rintro d hd rfl
    apply absurd hd (Nat.not_lt.mpr hcontrol)
  rw [escape, if_neg hquote, if_neg hbackslash, if_neg (hne _ (by decide)),
    if_neg (hne _ (by decide)), if_neg (hne _ (by decide)), if_neg (hne _ (by decide)),
    if_neg (hne _ (by decide)), if_neg (Nat.not_lt.mpr hcontrol)]

theorem encodeString_of_unescaped {text : String} (h : ∀ c ∈ text.toList, IsUnescaped c) :
  encodeString text = '\x22' :: text.toList ++ ['\x22']
  := by
  have hchars : text.toList.flatMap escape = text.toList.flatMap (fun c => [c]) := by
    apply List.flatMap_congr
    intro c hc
    apply escape_of_unescaped (h c hc)
  rw [encodeString, hchars, List.flatMap_singleton']

theorem toNat_of_mem_all {cs : List Char} (hall : cs.all (fun c => decide (32 ≤ c.toNat)))
    {d : Char} (h : d ∈ cs) :
  32 ≤ d.toNat
  := List.all_iff_forall_prop.mp hall d h

/-- No control character is written. -/
theorem toNat_of_mem_escape {c d : Char} (h : d ∈ escape c) :
  32 ≤ d.toNat
  := by
  have hdigits : ∀ n < 32, ['\x5c', 'u', '0', '0', Nat.digitChar (n / 16),
      Nat.digitChar (n % 16)].all (fun c => decide (32 ≤ c.toNat)) := by decide
  by_cases hplain : IsUnescaped c
  · rw [escape_of_unescaped hplain] at h
    obtain rfl := List.mem_singleton.mp h
    apply hplain.2.2
  · rw [escape] at h
    split at h
    case isTrue => apply toNat_of_mem_all (by decide) h
    case isFalse hquote =>
    split at h
    case isTrue => apply toNat_of_mem_all (by decide) h
    case isFalse hbackslash =>
    split at h
    case isTrue => apply toNat_of_mem_all (by decide) h
    split at h
    case isTrue => apply toNat_of_mem_all (by decide) h
    split at h
    case isTrue => apply toNat_of_mem_all (by decide) h
    split at h
    case isTrue => apply toNat_of_mem_all (by decide) h
    split at h
    case isTrue => apply toNat_of_mem_all (by decide) h
    split at h
    case isTrue hcontrol => apply toNat_of_mem_all (hdigits _ hcontrol) h
    case isFalse hcontrol =>
      apply absurd _ hplain
      exact ⟨hquote, hbackslash, Nat.not_lt.mp hcontrol⟩

theorem toNat_of_mem_encodeString {text : String} {d : Char} (h : d ∈ encodeString text) :
  32 ≤ d.toNat
  := by
  rcases List.mem_append.mp h with h | h
  · rcases List.mem_cons.mp h with rfl | h
    · decide
    · obtain ⟨c, -, hd⟩ := List.mem_flatMap.mp h
      apply toNat_of_mem_escape hd
  · obtain rfl := List.mem_singleton.mp h
    decide

theorem toNat_of_mem_encodeMore {texts : List String} {d : Char} (h : d ∈ encodeMore texts) :
  32 ≤ d.toNat
  := by
  induction texts with
  | nil =>
      obtain rfl := List.mem_singleton.mp h
      decide
  | cons text texts ih =>
      rcases List.mem_append.mp h with h | h
      · rcases List.mem_cons.mp h with rfl | h
        · decide
        · apply toNat_of_mem_encodeString h
      · apply ih h

theorem toNat_of_mem_encodeStrings {texts : List String} {d : Char}
    (h : d ∈ (encodeStrings texts).toList) :
  32 ≤ d.toNat
  := by
  cases texts with
  | nil => apply toNat_of_mem_all (by decide) h
  | cons text texts =>
      rw [encodeStrings, String.toList_ofList] at h
      rcases List.mem_append.mp h with h | h
      · rcases List.mem_cons.mp h with rfl | h
        · decide
        · apply toNat_of_mem_encodeString h
      · apply toNat_of_mem_encodeMore h

/-! ### Reading -/

def unhex (c : Char) : Option ℕ :=
  if '0' ≤ c ∧ c ≤ '9' then some (c.toNat - '0'.toNat)
  else if 'a' ≤ c ∧ c ≤ 'f' then some (c.toNat - 'a'.toNat + 10)
  else if 'A' ≤ c ∧ c ≤ 'F' then some (c.toNat - 'A'.toNat + 10)
  else none

/-- The number of four hexadecimal digits. -/
def unhex4 (a b c d : Char) : Option ℕ := do
  let a ← unhex a
  let b ← unhex b
  let c ← unhex c
  let d ← unhex d
  pure (((a * 16 + b) * 16 + c) * 16 + d)

/-- The character of a surrogate pair. -/
def ofSurrogates (high low : ℕ) : Option Char :=
  if 0xd800 ≤ high ∧ high < 0xdc00 ∧ 0xdc00 ≤ low ∧ low < 0xe000
  then some (Char.ofNat (0x10000 + (high - 0xd800) * 0x400 + (low - 0xdc00)))
  else none

/-- The character of an escape with one letter. -/
def unescape (c : Char) : Option Char :=
  if c = '\x22' ∨ c = '\x5c' ∨ c = '/' then some c
  else if c = 'b' then some '\x08'
  else if c = 'f' then some '\x0c'
  else if c = 'n' then some '\n'
  else if c = 'r' then some '\r'
  else if c = 't' then some '\t'
  else none

/-- A character before the string that is read from the rest of the text. -/
def before (c : Char) (read : Option (List Char × List Char)) : Option (List Char × List Char) :=
  read.map (Prod.map (c :: ·) id)

/-- Read a string after its opening quote: the string, and the text after its closing quote. -/
def decodeString : List Char → Option (List Char × List Char)
  | [] => none
  | c :: text =>
      if c = '\x22' then some ([], text)
      else if c.toNat < 32 then none
      else if c ≠ '\x5c' then before c (decodeString text)
      else
        match text with
        | 'u' :: a :: b :: c :: d :: text =>
            match unhex4 a b c d with
            | none => none
            | some n =>
                if n.isValidChar then before (Char.ofNat n) (decodeString text)
                else
                  match text with
                  | '\x5c' :: 'u' :: a :: b :: c :: d :: text =>
                      match (unhex4 a b c d).bind (ofSurrogates n) with
                      | none => none
                      | some c => before c (decodeString text)
                  | _ => none
        | e :: text =>
            match unescape e with
            | none => none
            | some c => before c (decodeString text)
        | [] => none

def skipBlanks : List Char → List Char :=
  List.dropWhile (fun c => c = ' ' ∨ c = '\t' ∨ c = '\n' ∨ c = '\r')

/-- Only blanks may stand after an array. -/
def decodeEnd (text : List Char) : Option (List String) :=
  if skipBlanks text = [] then some [] else none

/-- Read the elements of an array after its first; each takes some of the text. -/
def decodeMore : ℕ → List Char → Option (List String)
  | 0, _ => none
  | fuel + 1, text =>
      match skipBlanks text with
      | ']' :: text => decodeEnd text
      | ',' :: text =>
          match skipBlanks text with
          | '\x22' :: text => do
              let (item, text) ← decodeString text
              let items ← decodeMore fuel text
              pure (String.ofList item :: items)
          | _ => none
      | _ => none

def decodeStrings (text : String) : Option (List String) :=
  match skipBlanks text.toList with
  | '[' :: text =>
      match skipBlanks text with
      | ']' :: text => decodeEnd text
      | '\x22' :: text => do
          let (item, text) ← decodeString text
          let items ← decodeMore text.length text
          pure (String.ofList item :: items)
      | _ => none
  | _ => none

/-! ### The round trip -/

theorem decodeString_close (text : List Char) :
  decodeString ('\x22' :: text) = some ([], text)
  := by
  rw [decodeString.eq_def]
  apply if_pos rfl

theorem decodeString_plain {c : Char} (hquote : c ≠ '\x22') (hbackslash : c ≠ '\x5c')
    (hcontrol : 32 ≤ c.toNat) (text : List Char) :
  decodeString (c :: text) = before c (decodeString text)
  := by
  rw [decodeString.eq_def]
  dsimp only
  rw [if_neg hquote, if_neg (Nat.not_lt.mpr hcontrol), if_pos hbackslash]

theorem decodeString_unescape {e c : Char} (h : unescape e = some c) (text : List Char) :
  decodeString ('\x5c' :: e :: text) = before c (decodeString text)
  := by
  rw [decodeString.eq_def]
  dsimp only
  rw [if_neg (by decide), if_neg (by decide), if_neg (by decide)]
  split
  case h_1 heq =>
      obtain ⟨rfl, -⟩ := List.cons.inj heq
      cases h
  case h_2 heq =>
      obtain ⟨rfl, rfl⟩ := List.cons.inj heq
      rw [h]
  case h_3 heq => cases heq

/-- The escape of a control character is read as that character. -/
theorem unhex4_control : ∀ n < 32,
  unhex4 '0' '0' (Nat.digitChar (n / 16)) (Nat.digitChar (n % 16)) = some n
  := by decide

theorem decodeString_control {c : Char} (h : c.toNat < 32) (text : List Char) :
  decodeString ('\x5c' :: 'u' :: '0' :: '0' :: Nat.digitChar (c.toNat / 16)
      :: Nat.digitChar (c.toNat % 16) :: text)
    = before c (decodeString text)
  := by
  have hvalid : c.toNat.isValidChar := c.valid
  rw [decodeString.eq_def]
  dsimp only
  rw [if_neg (by decide), if_neg (by decide), if_neg (by decide)]
  simp only [unhex4_control _ h, if_pos hvalid, Char.ofNat_toNat]

/-- An escaped character is read as that character. -/
theorem decodeString_escape (c : Char) (text : List Char) :
  decodeString (escape c ++ text) = before c (decodeString text)
  := by
  rw [escape]
  split
  case isTrue h => rw [h]; apply decodeString_unescape rfl
  case isFalse hquote =>
  split
  case isTrue h => rw [h]; apply decodeString_unescape rfl
  case isFalse hbackslash =>
  split
  case isTrue h => rw [h]; apply decodeString_unescape rfl
  split
  case isTrue h => rw [h]; apply decodeString_unescape rfl
  split
  case isTrue h => rw [h]; apply decodeString_unescape rfl
  split
  case isTrue h => rw [h]; apply decodeString_unescape rfl
  split
  case isTrue h => rw [h]; apply decodeString_unescape rfl
  split
  case isTrue h => apply decodeString_control h
  case isFalse h => apply decodeString_plain hquote hbackslash (Nat.not_lt.mp h)

/-- A string that is written is read, and the text after it is left. -/
theorem decodeString_flatMap (chars text : List Char) :
  decodeString (chars.flatMap escape ++ '\x22' :: text) = some (chars, text)
  := by
  induction chars with
  | nil => apply decodeString_close
  | cons c chars ih =>
      rw [List.flatMap_cons, List.append_assoc, decodeString_escape, ih]
      rfl

theorem decodeString_encodeString (text : String) (rest : List Char) :
  ∃ chars, encodeString text ++ rest = '\x22' :: chars
    ∧ decodeString chars = some (text.toList, rest)
  := by
  use text.toList.flatMap escape ++ '\x22' :: rest
  constructor
  · rw [encodeString, List.append_assoc, List.cons_append]
    rfl
  · apply decodeString_flatMap

/-- The elements that are written are read, with a step for each and one for the end. -/
theorem decodeMore_encodeMore (texts : List String) (fuel : ℕ) :
  decodeMore (fuel + texts.length + 1) (encodeMore texts) = some texts
  := by
  induction texts with
  | nil => rfl
  | cons text texts ih =>
      obtain ⟨chars, hchars, hread⟩ := decodeString_encodeString text (encodeMore texts)
      have hcomma : skipBlanks (encodeMore (text :: texts)) = ',' :: '\x22' :: chars := by
        rw [encodeMore, List.cons_append, hchars]
        rfl
      have hquote : skipBlanks ('\x22' :: chars) = '\x22' :: chars := rfl
      rw [decodeMore]
      simp only [hcomma, hquote, hread, Option.bind_eq_bind, Option.bind_some]
      rw [List.length_cons, ← Nat.add_assoc, ih, Option.bind_some, String.ofList_toList]
      rfl

theorem length_lt_encodeMore (texts : List String) :
  texts.length < (encodeMore texts).length
  := by
  induction texts with
  | nil => apply Nat.one_pos
  | cons text texts ih =>
      rw [encodeMore, List.length_append, List.length_cons, List.length_cons]
      omega

/-- An array that is written is read. -/
theorem decodeStrings_encodeStrings (texts : List String) :
  decodeStrings (encodeStrings texts) = some texts
  := by
  cases texts with
  | nil => rfl
  | cons text texts =>
      obtain ⟨chars, hchars, hread⟩ := decodeString_encodeString text (encodeMore texts)
      obtain ⟨fuel, hfuel⟩ := Nat.exists_eq_add_of_lt (length_lt_encodeMore texts)
      have hmore := decodeMore_encodeMore texts fuel
      rw [Nat.add_comm fuel, ← hfuel] at hmore
      have hopen : skipBlanks (encodeStrings (text :: texts)).toList = '[' :: '\x22' :: chars := by
        rw [encodeStrings, List.cons_append, hchars, String.toList_ofList]
        rfl
      have hquote : skipBlanks ('\x22' :: chars) = '\x22' :: chars := rfl
      rw [decodeStrings]
      simp only [hopen, hquote, hread, Option.bind_eq_bind, Option.bind_some, hmore,
        String.ofList_toList]
      rfl

end JsonText
