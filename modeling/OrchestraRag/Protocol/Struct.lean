import OrchestraRag.Protocol.Json

/-!
# Arguments and results as protobuf structs

The values of `prost_types::Struct`, and the conversions `structToJson` and `jsonToStruct`
between them and JSON.  A number crosses as an `f64`, so on the JSON side it comes back
tagged as a float.  `Json.wire v` is `v` after both conversions: looking up a path commutes
with it (`wire_at?`), and it leaves a value as it is when no number in it is tagged as an
integer (`wire_of_integerFree`).
-/

namespace OrchestraRag

namespace Prost

/-- A `prost_types::Value`, by its kind; `unset` has none. -/
inductive Value where
  | unset
  | nullValue (n : Int32)
  | numberValue (f : F64)
  | stringValue (s : String)
  | boolValue (b : Bool)
  | structValue (fields : List (String × Value))
  | listValue (values : List Value)

/-- A `prost_types::Struct`: its fields, sorted by key. -/
structure Struct where
  fields : List (String × Value)

end Prost

open Prost

/-- `json!(f)` of an `f64`: the ones JSON has no number for become `null`. -/
def Json.ofF64 (f : F64) : Json :=
  if f.isFinite then .number (.float f) else .null

mutual

def valueToJson : Value → Json
  | .nullValue _ => .null
  | .numberValue f => Json.ofF64 f
  | .stringValue s => .string s
  | .boolValue b => .bool b
  | .structValue fields => .object (SortedMap.collect (fieldsToJson fields))
  | .listValue values => .array (valuesToJson values)
  | .unset => .null

def valuesToJson : List Value → List Json
  | [] => []
  | v :: values => valueToJson v :: valuesToJson values

def fieldsToJson : List (String × Value) → List (String × Json)
  | [] => []
  | (k, v) :: fields => (k, valueToJson v) :: fieldsToJson fields

end

/-- Convert a `Struct` to a JSON object. -/
def structToJson (s : Struct) : Json :=
  .object (SortedMap.collect (fieldsToJson s.fields))

mutual

def jsonToValue : Json → Value
  | .null => .nullValue 0
  | .bool b => .boolValue b
  | .number n => .numberValue (n.asF64.getD (F64.ofInt 0))
  | .string s => .stringValue s
  | .array items => .listValue (itemsToValues items)
  | .object fields => .structValue (SortedMap.collect (fieldsToValues fields))

def itemsToValues : List Json → List Value
  | [] => []
  | v :: items => jsonToValue v :: itemsToValues items

def fieldsToValues : List (String × Json) → List (String × Value)
  | [] => []
  | (k, v) :: fields => (k, jsonToValue v) :: fieldsToValues fields

end

/-- Convert a JSON value to a `Struct`; one that is not an object becomes the field `value`. -/
def jsonToStruct : Json → Struct
  | .object fields => ⟨SortedMap.collect (fieldsToValues fields)⟩
  | v => ⟨SortedMap.insert "value" (jsonToValue v) []⟩

/-! ### The conversions as maps -/

theorem valuesToJson_eq_map (values : List Value) :
  valuesToJson values = values.map valueToJson
  := by
  induction values with
  | nil => rfl
  | cons v values ih => rw [valuesToJson, ih, List.map_cons]

theorem fieldsToJson_eq_map (fields : List (String × Value)) :
  fieldsToJson fields = fields.map (fun e => (e.1, valueToJson e.2))
  := by
  induction fields with
  | nil => rfl
  | cons e fields ih => rw [fieldsToJson, ih, List.map_cons]

theorem itemsToValues_eq_map (items : List Json) :
  itemsToValues items = items.map jsonToValue
  := by
  induction items with
  | nil => rfl
  | cons v items ih => rw [itemsToValues, ih, List.map_cons]

theorem fieldsToValues_eq_map (fields : List (String × Json)) :
  fieldsToValues fields = fields.map (fun e => (e.1, jsonToValue e.2))
  := by
  induction fields with
  | nil => rfl
  | cons e fields ih => rw [fieldsToValues, ih, List.map_cons]

/-! ### Over the wire and back -/

namespace Json

/-- The value after `jsonToValue` and `valueToJson`. -/
def wire (v : Json) : Json :=
  valueToJson (jsonToValue v)

theorem wire_array (items : List Json) :
  (array items).wire = array (items.map wire)
  := by
  rw [wire, jsonToValue, valueToJson, valuesToJson_eq_map, itemsToValues_eq_map, List.map_map]
  rfl

/-- The fields of a sorted object cross in their order. -/
theorem wire_object {fields : List (String × Json)} (h : SortedMap.Sorted fields) :
  (object fields).wire = object (fields.map (fun e => (e.1, e.2.wire)))
  := by
  have hvalues : SortedMap.Sorted (fieldsToValues fields) := by
    apply h.of_keys
    simp [fieldsToValues_eq_map]
  have hjson : SortedMap.Sorted (fieldsToJson (fieldsToValues fields)) := by
    apply hvalues.of_keys
    simp [fieldsToJson_eq_map]
  rw [wire, jsonToValue, valueToJson, SortedMap.collect_of_sorted hvalues,
    SortedMap.collect_of_sorted hjson, fieldsToJson_eq_map, fieldsToValues_eq_map, List.map_map]
  rfl

/-- An object converted to a `Struct` and back is the object over the wire. -/
theorem structToJson_jsonToStruct (fields : List (String × Json)) :
  structToJson (jsonToStruct (object fields)) = (object fields).wire
  := by
  rw [jsonToStruct, structToJson, wire, jsonToValue, valueToJson]

/-- A number over the wire has no integer tag. -/
theorem wire_number (n : Number) :
  (∃ f, (number n).wire = number (.float f)) ∨ (number n).wire = null
  := by
  rw [wire, jsonToValue, valueToJson, ofF64]
  split
  · exact Or.inl ⟨_, rfl⟩
  · exact Or.inr rfl

theorem wire_float {f : F64} (h : f.isFinite) :
  (number (.float f)).wire = number (.float f)
  := by
  rw [wire, jsonToValue, valueToJson]
  simp [Number.asF64, ofF64, h]

theorem lookup_map_snd (fields : List (String × Json)) (f : Json → Json) (k : String) :
  (fields.map (fun e => (e.1, f e.2))).lookup k = (fields.lookup k).map f
  := by
  induction fields with
  | nil => rfl
  | cons e fields ih =>
      rw [List.map_cons, List.lookup_cons, List.lookup_cons]
      cases k == e.1 with
      | true => rfl
      | false => apply ih

/-- A step into a value over the wire reaches the value over the wire. -/
theorem wire_step? {v : Json} (hv : v.WellFormed) (st : Step) :
  v.wire.step? st = (v.step? st).map wire
  := by
  cases v with
  | null => rfl
  | bool b => rfl
  | string s => rfl
  | number n =>
      rcases wire_number n with ⟨f, h⟩ | h
      · rw [h]
        rfl
      · rw [h]
        rfl
  | array items =>
      rw [wire_array]
      cases st with
      | key k => rfl
      | item i => rw [step?, step?, List.getElem?_map]
  | object fields =>
      rw [wire_object (wellFormed_object.mp hv).1]
      cases st with
      | key k => rw [step?, step?, lookup_map_snd]
      | item i => rfl

theorem WellFormed.step {v w : Json} {st : Step} (hv : v.WellFormed) (h : v.step? st = some w) :
  w.WellFormed
  := by
  cases v with
  | null => cases h
  | bool b => cases h
  | number n => cases h
  | string s => cases h
  | array items =>
      cases st with
      | key k => cases h
      | item i =>
          apply wellFormed_array.mp hv
          apply List.mem_of_getElem? h
  | object fields =>
      cases st with
      | item i => cases h
      | key k =>
          obtain ⟨l₁, l₂, hfields, -⟩ := List.lookup_eq_some_iff.mp h
          apply (wellFormed_object.mp hv).2 (k, w)
          simp [hfields]

/-- Looking up a path over the wire gives what is at the path, over the wire. -/
theorem wire_at? {v : Json} (hv : v.WellFormed) (path : List Step) :
  v.wire.at? path = (v.at? path).map wire
  := by
  induction path generalizing v with
  | nil => rfl
  | cons st path ih =>
      rw [at?_cons, at?_cons, wire_step? hv]
      cases hst : v.step? st with
      | none => rfl
      | some w => apply ih (hv.step hst)

/-- A value without integers crosses the wire as it is. -/
theorem wire_of_integerFree {v : Json} (hv : v.WellFormed) (hfree : v.IntegerFree) :
  v.wire = v
  := by
  induction v using Json.induct with
  | null => rfl
  | bool b => rfl
  | string s => rfl
  | number n =>
      cases n with
      | posInt n => cases hfree [] _ rfl rfl
      | negInt n => cases hfree [] _ rfl rfl
      | float f => apply wire_float hv
  | array items ih =>
      rw [wire_array]
      congr 1
      apply (List.map_congr_left _).trans (List.map_id items)
      intro v hmem
      obtain ⟨i, hi, hget⟩ := List.getElem_of_mem hmem
      have hst : (array items).step? (.item i) = some v := by
        rw [step?, List.getElem?_eq_getElem hi, hget]
      apply ih v hmem (hv.step hst) (hfree.step hst)
  | object fields ih =>
      have hsorted := (wellFormed_object.mp hv).1
      rw [wire_object hsorted]
      congr 1
      apply (List.map_congr_left _).trans (List.map_id fields)
      intro e hmem
      have hst : (object fields).step? (.key e.1) = some e.2 := by
        rw [step?, SortedMap.lookup_of_mem hsorted hmem]
      rw [ih e hmem (hv.step hst) (hfree.step hst), id_eq]

end Json

end OrchestraRag
