import Mathlib.Data.Int.Basic
import Mathlib.Data.String.Basic
import OrchestraRag.Library.SortedMap

/-!
# JSON values

The values of `serde_json` as the tools read them.  A number remembers how it was made:
from an unsigned integer, from a negative one, or from an `f64`; the accessors `asU64` and
`asI64` look at this tag and not at the value.  An object is a map sorted by key.  A value
the program can hold satisfies `Json.WellFormed`: its objects are sorted and its floats are
finite.
-/

namespace OrchestraRag

/-- An `f64`, by its bits. -/
structure F64 where
  bits : BitVec 64
  deriving DecidableEq

namespace F64

/-- The exponent field is not the one of the infinities and of NaN. -/
def isFinite (f : F64) : Bool :=
  f.bits.toNat / 2 ^ 52 % 2 ^ 11 != 2 ^ 11 - 1

/-- Significand, in `[2 ^ 52, 2 ^ 53)`, and exponent of a positive natural number rounded to
the nearest `f64`, ties going to the even significand. -/
def roundNat (m : ℕ) : ℕ × ℕ :=
  let e := Nat.log2 m
  if e ≤ 52 then (m * 2 ^ (52 - e), e)
  else
    let q := m / 2 ^ (e - 52)
    let r := m % 2 ^ (e - 52)
    let half := 2 ^ (e - 53)
    let q' := if half < r ∨ (r = half ∧ q % 2 = 1) then q + 1 else q
    if q' = 2 ^ 53 then (2 ^ 52, e + 1) else (q', e)

/-- The cast `n as f64` of an integer. -/
def ofInt (n : ℤ) : F64 :=
  if n = 0 then ⟨0⟩
  else
    let (significand, exponent) := roundNat n.natAbs
    let sign := if n < 0 then 2 ^ 63 else 0
    ⟨BitVec.ofNat 64 (sign + (exponent + 1023) * 2 ^ 52 + (significand - 2 ^ 52))⟩

end F64

/-- A JSON number with its tag; `negInt` is kept for the negative ones. -/
inductive Number where
  | posInt (n : UInt64)
  | negInt (n : Int64)
  | float (f : F64)
  deriving DecidableEq

namespace Number

/-- The number is tagged as an integer. -/
def isInteger : Number → Bool
  | .posInt _ => true
  | .negInt _ => true
  | .float _ => false

def asU64 : Number → Option UInt64
  | .posInt n => some n
  | .negInt _ => none
  | .float _ => none

def asI64 : Number → Option Int64
  | .posInt n => if n.toNat < 2 ^ 63 then some n.toInt64 else none
  | .negInt n => some n
  | .float _ => none

def asF64 : Number → Option F64
  | .posInt n => some (F64.ofInt n.toNat)
  | .negInt n => some (F64.ofInt n.toInt)
  | .float f => some f

/-- A number tagged as an integer is read by `asU64` or by `asI64`. -/
theorem asU64_or_asI64_of_isInteger {n : Number} (h : n.isInteger) :
  n.asU64 ≠ none ∨ n.asI64 ≠ none
  := by
  cases n with
  | posInt n => exact Or.inl (Option.some_ne_none n)
  | negInt n => exact Or.inr (Option.some_ne_none n)
  | float f => cases h

end Number

/-- A JSON value. -/
inductive Json where
  | null
  | bool (b : Bool)
  | number (n : Number)
  | string (s : String)
  | array (items : List Json)
  | object (fields : List (String × Json))

namespace Json

/-! ### Accessors -/

def asU64 : Json → Option UInt64
  | .number n => n.asU64
  | _ => none

def asI64 : Json → Option Int64
  | .number n => n.asI64
  | _ => none

def asF64 : Json → Option F64
  | .number n => n.asF64
  | _ => none

def asStr : Json → Option String
  | .string s => some s
  | _ => none

def asBool : Json → Option Bool
  | .bool b => some b
  | _ => none

def asArray : Json → Option (List Json)
  | .array items => some items
  | _ => none

/-- The value of a field, `args.get(key)`. -/
def get (v : Json) (key : String) : Option Json :=
  match v with
  | .object fields => fields.lookup key
  | _ => none

/-- The field of an object made of entries. -/
theorem get_collect (key : String) (entries : List (String × Json)) :
  (Json.object (SortedMap.collect entries)).get key = entries.reverse.lookup key
  := SortedMap.lookup_collect key entries

/-- The value of a field, `args[key]`; a missing one reads as `null`. -/
def index (v : Json) (key : String) : Json :=
  (v.get key).getD .null

/-- What the accessors answer on a value. -/
structure Reads where
  asU64 : Option UInt64
  asI64 : Option Int64
  asStr : Option String
  asBool : Option Bool
  asArray : Option (List Json)

def reads (v : Json) : Reads where
  asU64 := v.asU64
  asI64 := v.asI64
  asStr := v.asStr
  asBool := v.asBool
  asArray := v.asArray

/-! ### Paths -/

/-- One step into a value. -/
inductive Step where
  | key (k : String)
  | item (i : ℕ)

/-- The value one step away. -/
def step? : Json → Step → Option Json
  | .object fields, .key k => fields.lookup k
  | .array items, .item i => items[i]?
  | _, _ => none

/-- The value at the end of a path. -/
def at? (v : Json) : List Step → Option Json
  | [] => some v
  | st :: path => (v.step? st).bind (fun w => w.at? path)

/-- What the accessors answer at the end of a path; a missing value reads as `null`. -/
def readAt (v : Json) (path : List Step) : Reads :=
  ((v.at? path).getD .null).reads

@[simp]
theorem at?_cons (v : Json) (st : Step) (path : List Step) :
  v.at? (st :: path) = (v.step? st).bind (fun w => w.at? path)
  := rfl

/-- No number at any depth is tagged as an integer. -/
def IntegerFree (v : Json) : Prop :=
  ∀ path n, v.at? path = some (.number n) → ¬ n.isInteger

theorem IntegerFree.step {v w : Json} {st : Step} (h : v.IntegerFree) (hst : v.step? st = some w) :
  w.IntegerFree
  := by
  intro path n hn
  apply h (st :: path) n
  rw [at?_cons, hst]
  apply hn

/-! ### Induction -/

/-- Induction on values: the items of an array and the values of an object come with the
hypothesis. -/
@[elab_as_elim]
theorem induct {motive : Json → Prop} (null : motive .null) (bool : ∀ b, motive (.bool b))
    (number : ∀ n, motive (.number n)) (string : ∀ s, motive (.string s))
    (array : ∀ items, (∀ v ∈ items, motive v) → motive (.array items))
    (object : ∀ fields, (∀ e ∈ fields, motive e.2) → motive (.object fields)) (v : Json) :
  motive v
  := by
  refine @Json.rec motive (fun items => ∀ v ∈ items, motive v)
    (fun fields => ∀ e ∈ fields, motive e.2) (fun e => motive e.2)
    null bool number string array object ?_ ?_ ?_ ?_ ?_ v
  · simp
  · intro v items hv hitems
    simpa using And.intro hv hitems
  · simp
  · intro e fields he hfields
    rw [List.forall_mem_cons]
    use he
  · intro k v hv
    apply hv

/-! ### Well-formed values -/

mutual

/-- Objects are sorted by key and floats are finite. -/
def WellFormed : Json → Prop
  | .number (.float f) => f.isFinite
  | .array items => WellFormedItems items
  | .object fields => SortedMap.Sorted fields ∧ WellFormedFields fields
  | _ => True

def WellFormedItems : List Json → Prop
  | [] => True
  | v :: items => v.WellFormed ∧ WellFormedItems items

def WellFormedFields : List (String × Json) → Prop
  | [] => True
  | (_, v) :: fields => v.WellFormed ∧ WellFormedFields fields

end

theorem wellFormedItems_iff {items : List Json} :
  WellFormedItems items ↔ ∀ v ∈ items, v.WellFormed
  := by
  induction items with
  | nil => simp [WellFormedItems]
  | cons v items ih => simp [WellFormedItems, ih]

theorem wellFormedFields_iff {fields : List (String × Json)} :
  WellFormedFields fields ↔ ∀ e ∈ fields, e.2.WellFormed
  := by
  induction fields with
  | nil => simp [WellFormedFields]
  | cons e fields ih => simp [WellFormedFields, ih]

theorem wellFormed_array {items : List Json} :
  (array items).WellFormed ↔ ∀ v ∈ items, v.WellFormed
  := by
  rw [WellFormed, wellFormedItems_iff]

theorem wellFormed_object {fields : List (String × Json)} :
  (object fields).WellFormed ↔ SortedMap.Sorted fields ∧ ∀ e ∈ fields, e.2.WellFormed
  := by
  rw [WellFormed, wellFormedFields_iff]

end Json

end OrchestraRag
