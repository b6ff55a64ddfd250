import Bridget.Foundation.Numerals

/-!
# JSON values

Values as they are read with `serde_json`: an index that finds nothing is null, and an
assignment to a field replaces what the field held.
-/

namespace Bridget.Foundation

inductive Json where
  | null
  | bool (value : Bool)
  | number (text : String)
  | str (value : String)
  | array (items : List Json)
  | object (fields : List (String × Json))

namespace Json

/-- `Value::get`. -/
def get? : Json → String → Option Json
  | .object fields, key => fields.lookup key
  | _, _ => none

/-- `value[key]`. -/
def get (value : Json) (key : String) : Json := (value.get? key).getD .null

def asStr : Json → Option String
  | .str value => some value
  | _ => none

def asBool : Json → Option Bool
  | .bool value => some value
  | _ => none

/-- `Value::as_u64`. -/
def asU64 : Json → Option Nat
  | .number text => (parseDigits text.toList).filter fun n => n ≤ u64Max
  | _ => none

def asArray : Json → Option (List Json)
  | .array items => some items
  | _ => none

def isObject : Json → Bool
  | .object _ => true
  | _ => false

/-- An array names a text. -/
def names (items : List Json) (text : String) : Bool := items.any fun item => item.asStr = some text

def remove : Json → String → Json
  | .object fields, key => .object (fields.filter fun field => field.1 ≠ key)
  | value, _ => value

/-- `value[key] = new`, where `value` is an object. -/
def set : Json → String → Json → Json
  | .object fields, key, new => .object ((key, new) :: fields.filter fun field => field.1 ≠ key)
  | value, _, _ => value

variable {key other : String} {value new : Json}

theorem lookup_filter_ne {fields : List (String × Json)}
    (hne : other ≠ key) : (fields.filter fun field => field.1 ≠ key).lookup other =
      fields.lookup other := by
  induction fields with
  | nil => rfl
  | cons field _ ih =>
    obtain ⟨name, _⟩ := field
    by_cases hname : name = key
    · subst hname
      have hskip : (other == name) = false := beq_eq_false_iff_ne.mpr hne
      rw [List.filter_cons_of_neg (by simp), ih, List.lookup_cons, hskip]
    · rw [List.filter_cons_of_pos (by simpa using hname), List.lookup_cons, List.lookup_cons, ih]

theorem get_remove_ne (hne : other ≠ key) : (value.remove key).get other = value.get other := by
  cases value with
  | object => simp only [remove, get, get?, lookup_filter_ne hne]
  | _ => rfl

theorem get_set_ne (hne : other ≠ key) : (value.set key new).get other = value.get other := by
  cases value with
  | object =>
    have hkey : (other == key) = false := beq_eq_false_iff_ne.mpr hne
    simp only [set, get, get?, List.lookup_cons, hkey, lookup_filter_ne hne]
  | _ => rfl

@[simp] theorem isObject_set : (value.set key new).isObject = value.isObject := by
  cases value <;> rfl

theorem get_set (hobject : value.isObject = true) : (value.set key new).get key = new := by
  cases value with
  | object => simp [set, get, get?]
  | _ => cases hobject

end Json

end Bridget.Foundation
