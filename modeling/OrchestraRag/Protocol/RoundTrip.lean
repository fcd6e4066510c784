import OrchestraRag.Protocol.Struct

/-!
# Structs over the wire

A `Struct` of which every value has its kind comes back as it was from `structToJson` and
`jsonToStruct` (`jsonToStruct_structToJson`).  Any JSON value made from a `Struct` is
well-formed and free of integers, so a value that crossed once is not changed by crossing
again; its keys and the order of its arrays are the ones it had before.
-/

namespace OrchestraRag

open Prost

namespace Prost.Value

/-- Induction on values: the values of a list and of a struct come with the hypothesis. -/
@[elab_as_elim]
theorem induct {motive : Value → Prop} (unset : motive .unset)
    (nullValue : ∀ n, motive (.nullValue n)) (numberValue : ∀ f, motive (.numberValue f))
    (stringValue : ∀ s, motive (.stringValue s)) (boolValue : ∀ b, motive (.boolValue b))
    (structValue : ∀ fields, (∀ e ∈ fields, motive e.2) → motive (.structValue fields))
    (listValue : ∀ values, (∀ v ∈ values, motive v) → motive (.listValue values)) (v : Value) :
  motive v
  := by
  refine @Value.rec motive (fun fields => ∀ e ∈ fields, motive e.2)
    (fun values => ∀ v ∈ values, motive v) (fun e => motive e.2)
    unset nullValue numberValue stringValue boolValue structValue listValue ?_ ?_ ?_ ?_ ?_ v
  · simp
  · intro e fields he hfields
    rw [List.forall_mem_cons]
    use he
  · simp
  · intro v values hv hvalues
    rw [List.forall_mem_cons]
    use hv
  · intro k v hv
    apply hv

mutual

/-- Every value has its kind, every number is finite, every null is `NullValue(0)`, and the
fields of every struct are sorted. -/
def Complete : Value → Prop
  | .unset => False
  | .nullValue n => n = 0
  | .numberValue f => f.isFinite
  | .structValue fields => SortedMap.Sorted fields ∧ CompleteFields fields
  | .listValue values => CompleteValues values
  | _ => True

def CompleteValues : List Value → Prop
  | [] => True
  | v :: values => v.Complete ∧ CompleteValues values

def CompleteFields : List (String × Value) → Prop
  | [] => True
  | (_, v) :: fields => v.Complete ∧ CompleteFields fields

end

theorem completeValues_iff {values : List Value} :
  CompleteValues values ↔ ∀ v ∈ values, v.Complete
  := by
  induction values with
  | nil => simp [CompleteValues]
  | cons v values ih => simp [CompleteValues, ih]

theorem completeFields_iff {fields : List (String × Value)} :
  CompleteFields fields ↔ ∀ e ∈ fields, e.2.Complete
  := by
  induction fields with
  | nil => simp [CompleteFields]
  | cons e fields ih => simp [CompleteFields, ih]

end Prost.Value

/-- Every value in the struct, at any depth, is complete, and its fields are sorted. -/
def Prost.Struct.Complete (s : Struct) : Prop :=
  SortedMap.Sorted s.fields ∧ Value.CompleteFields s.fields

/-! ### From structs and back -/

theorem fieldsToValues_fieldsToJson {fields : List (String × Value)}
    (h : SortedMap.Sorted fields) :
  SortedMap.collect (fieldsToValues (SortedMap.collect (fieldsToJson fields)))
    = fields.map (fun e => (e.1, jsonToValue (valueToJson e.2)))
  := by
  have hjson : SortedMap.Sorted (fieldsToJson fields) := by
    apply h.of_keys
    simp [fieldsToJson_eq_map]
  have hvalues : SortedMap.Sorted (fieldsToValues (fieldsToJson fields)) := by
    apply hjson.of_keys
    simp [fieldsToValues_eq_map]
  rw [SortedMap.collect_of_sorted hjson, SortedMap.collect_of_sorted hvalues,
    fieldsToValues_eq_map, fieldsToJson_eq_map, List.map_map]
  rfl

/-- Fields of which every value comes back as it was come back as they were. -/
theorem fieldsToValues_fieldsToJson_of_forall {fields : List (String × Value)}
    (hsorted : SortedMap.Sorted fields)
    (h : ∀ e ∈ fields, jsonToValue (valueToJson e.2) = e.2) :
  SortedMap.collect (fieldsToValues (SortedMap.collect (fieldsToJson fields))) = fields
  := by
  rw [fieldsToValues_fieldsToJson hsorted]
  apply (List.map_congr_left _).trans (List.map_id fields)
  intro e hmem
  rw [h e hmem, id_eq]

/-- A complete value comes back as it was. -/
theorem jsonToValue_valueToJson {v : Value} (hv : v.Complete) :
  jsonToValue (valueToJson v) = v
  := by
  induction v using Value.induct with
  | unset => cases hv
  | nullValue n =>
      obtain rfl := hv
      rfl
  | numberValue f =>
      rw [Value.Complete] at hv
      rw [valueToJson, Json.ofF64, if_pos hv]
      rfl
  | stringValue s => rfl
  | boolValue b => rfl
  | structValue fields ih =>
      obtain ⟨hsorted, hfields⟩ := hv
      rw [valueToJson, jsonToValue, fieldsToValues_fieldsToJson_of_forall hsorted]
      intro e hmem
      apply ih e hmem (Value.completeFields_iff.mp hfields e hmem)
  | listValue values ih =>
      rw [valueToJson, jsonToValue, itemsToValues_eq_map, valuesToJson_eq_map, List.map_map]
      congr 1
      apply (List.map_congr_left _).trans (List.map_id values)
      intro v hmem
      apply ih v hmem (Value.completeValues_iff.mp hv v hmem)

/-- A complete struct comes back as it was. -/
theorem jsonToStruct_structToJson {s : Struct} (hs : s.Complete) :
  jsonToStruct (structToJson s) = s
  := by
  rw [structToJson, jsonToStruct, fieldsToValues_fieldsToJson_of_forall hs.1]
  intro e hmem
  apply jsonToValue_valueToJson (Value.completeFields_iff.mp hs.2 e hmem)

/-! ### What comes from a struct -/

/-- A value made from a `Value` has sorted objects and finite floats. -/
theorem valueToJson_wellFormed (v : Value) :
  (valueToJson v).WellFormed
  := by
  induction v using Value.induct with
  | unset => trivial
  | nullValue n => trivial
  | numberValue f =>
      rw [valueToJson, Json.ofF64]
      split
      case isTrue h => apply h
      case isFalse => trivial
  | stringValue s => trivial
  | boolValue b => trivial
  | structValue fields ih =>
      rw [valueToJson, Json.wellFormed_object]
      refine ⟨SortedMap.sorted_collect _, ?_⟩
      intro e hmem
      have hfield := SortedMap.mem_collect hmem
      rw [fieldsToJson_eq_map] at hfield
      obtain ⟨field, hin, rfl⟩ := List.mem_map.mp hfield
      apply ih field hin
  | listValue values ih =>
      rw [valueToJson, Json.wellFormed_array, valuesToJson_eq_map]
      intro w hmem
      obtain ⟨v, hin, rfl⟩ := List.mem_map.mp hmem
      apply ih v hin

/-- A value has no integers when it is none and none of its parts has any. -/
theorem Json.integerFree_of_step {v : Json} (hnumber : ∀ n, v = .number n → ¬ n.isInteger)
    (hstep : ∀ st w, v.step? st = some w → w.IntegerFree) :
  v.IntegerFree
  := by
  intro path n h
  cases path with
  | nil => apply hnumber n (Option.some.inj h)
  | cons st path =>
      rw [Json.at?_cons] at h
      obtain ⟨w, hst, hat⟩ := Option.bind_eq_some_iff.mp h
      apply hstep st w hst path n hat

/-- A value that is no number and has no parts. -/
theorem Json.integerFree_of_leaf {v : Json} (hnumber : ∀ n, v ≠ .number n)
    (hstep : ∀ st, v.step? st = none) :
  v.IntegerFree
  := by
  apply integerFree_of_step
  · intro n h
    cases hnumber n h
  · intro st w hst
    rw [hstep st] at hst
    cases hst

/-- A value made from a `Value` has no number tagged as an integer. -/
theorem valueToJson_integerFree (v : Value) :
  (valueToJson v).IntegerFree
  := by
  induction v using Value.induct with
  | unset => apply Json.integerFree_of_leaf (by simp [valueToJson]) (fun _ => rfl)
  | nullValue n => apply Json.integerFree_of_leaf (by simp [valueToJson]) (fun _ => rfl)
  | numberValue f =>
      rw [valueToJson, Json.ofF64]
      split
      · apply Json.integerFree_of_step
        · intro n h
          obtain rfl := Json.number.inj h
          apply Bool.false_ne_true
        · simp [Json.step?]
      · apply Json.integerFree_of_leaf (by simp) (fun _ => rfl)
  | stringValue s => apply Json.integerFree_of_leaf (by simp [valueToJson]) (fun _ => rfl)
  | boolValue b => apply Json.integerFree_of_leaf (by simp [valueToJson]) (fun _ => rfl)
  | structValue fields ih =>
      rw [valueToJson]
      apply Json.integerFree_of_step
      · simp
      · intro st w hst
        cases st with
        | item i => cases hst
        | key k =>
            obtain ⟨l₁, l₂, hfields, -⟩ := List.lookup_eq_some_iff.mp hst
            have hfield : (k, w) ∈ fieldsToJson fields := by
              apply SortedMap.mem_collect
              simp [hfields]
            rw [fieldsToJson_eq_map] at hfield
            obtain ⟨field, hin, hw⟩ := List.mem_map.mp hfield
            obtain rfl : valueToJson field.2 = w := congrArg Prod.snd hw
            apply ih field hin
  | listValue values ih =>
      rw [valueToJson, valuesToJson_eq_map]
      apply Json.integerFree_of_step
      · simp
      · intro st w hst
        cases st with
        | key k => cases hst
        | item i =>
            obtain ⟨v, hin, rfl⟩ := List.mem_map.mp (List.mem_of_getElem? hst)
            apply ih v hin

/-- What comes from a struct is not changed by crossing again. -/
theorem structToJson_jsonToStruct_structToJson (s : Struct) :
  structToJson (jsonToStruct (structToJson s)) = structToJson s
  := by
  have hvalue : structToJson s = valueToJson (.structValue s.fields) := by
    rw [structToJson, valueToJson]
  have hwire : structToJson (jsonToStruct (structToJson s)) = (structToJson s).wire := by
    apply Json.structToJson_jsonToStruct
  rw [hwire, hvalue]
  apply Json.wire_of_integerFree (valueToJson_wellFormed _) (valueToJson_integerFree _)

/-! ### Keys and order -/

namespace Json

/-- The object that crosses for a value: itself, or the one that holds it as `value`. -/
def wrapped : Json → Json
  | .object fields => .object fields
  | v => .object [("value", v)]

theorem structToJson_jsonToStruct_eq_wire (v : Json) :
  structToJson (jsonToStruct v) = v.wrapped.wire
  := by
  cases v with
  | object fields => apply structToJson_jsonToStruct
  | null => rfl
  | bool b => rfl
  | number n => rfl
  | string s => rfl
  | array items => rfl

theorem WellFormed.wrapped {v : Json} (hv : v.WellFormed) :
  v.wrapped.WellFormed
  := by
  cases v with
  | object fields => apply hv
  | _ => simpa [Json.wrapped, wellFormed_object, SortedMap.Sorted] using hv

/-- What is at a path of a well-formed value is well-formed. -/
theorem WellFormed.at? {v w : Json} (hv : v.WellFormed) {path : List Step}
    (h : v.at? path = some w) :
  w.WellFormed
  := by
  induction path generalizing v with
  | nil =>
      obtain rfl := Option.some.inj h
      apply hv
  | cons st path ih =>
      rw [at?_cons] at h
      obtain ⟨u, hst, hat⟩ := Option.bind_eq_some_iff.mp h
      apply ih (hv.step hst) hat

end Json

/-- A complete struct comes back from JSON as it was.  A JSON value that crossed once does not
change when it crosses again, and at every path it has the keys and the order of items that
it had before. -/
theorem struct_roundtrip :
  (∀ s : Struct, s.Complete → jsonToStruct (structToJson s) = s)
  ∧ (∀ v : Json,
      structToJson (jsonToStruct (structToJson (jsonToStruct v))) = structToJson (jsonToStruct v))
  ∧ (∀ v : Json, v.WellFormed → ∀ path,
      (∀ fields, v.wrapped.at? path = some (.object fields) →
        (structToJson (jsonToStruct v)).at? path
          = some (.object (fields.map (fun e => (e.1, e.2.wire)))))
      ∧ (∀ items, v.wrapped.at? path = some (.array items) →
        (structToJson (jsonToStruct v)).at? path = some (.array (items.map Json.wire))))
  := by
  refine ⟨?_, ?_, ?_⟩
  · intro s hs
    apply jsonToStruct_structToJson hs
  · intro v
    apply structToJson_jsonToStruct_structToJson
  · intro v hv path
    rw [Json.structToJson_jsonToStruct_eq_wire, Json.wire_at? hv.wrapped]
    constructor
    · intro fields hfields
      have hat := hv.wrapped.at? hfields
      rw [hfields, Option.map_some, Json.wire_object (Json.wellFormed_object.mp hat).1]
    · intro items hitems
      rw [hitems, Option.map_some, Json.wire_array]

/-- A struct with a list of a number and a null, and the list from the argument of a tool. -/
theorem struct_roundtrip_list :
  jsonToStruct (structToJson ⟨[("a", .listValue [.numberValue (F64.ofInt 1), .nullValue 0])]⟩)
      = ⟨[("a", .listValue [.numberValue (F64.ofInt 1), .nullValue 0])]⟩
    ∧ (structToJson (jsonToStruct (.array [.number (.posInt 1), .null]))).at? [.key "value"]
      = some (.array ([.number (.posInt 1), .null].map Json.wire))
  := by
  constructor
  · apply struct_roundtrip.1
    refine ⟨by decide, ?_⟩
    simp only [Value.CompleteFields, Value.Complete, Value.CompleteValues, and_true]
    decide
  · apply (struct_roundtrip.2.2 (.array [.number (.posInt 1), .null]) _ [.key "value"]).2
    · rfl
    · simp [Json.WellFormed, Json.WellFormedItems]

end OrchestraRag
