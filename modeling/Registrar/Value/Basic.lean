import Registrar.Double.Basic
import Registrar.Uuid

/-!
# Stored values

A **value** is what a document store holds under a key: a scalar, a list of values, or a document.
A **document** is a list of fields in the order in which their keys were first written. Writing a
key that is present replaces its value in place.

* `Document.value?`, `Document.put`, `Document.without`: reading, writing and dropping a field,
  with one read-after-write law each.
* `Value.uuid?`, `Value.uuids`: the ids that a value refers to. An id is stored as sixteen bytes
  of the uuid subtype; its text is read as well.
-/

namespace Registrar

/-- **A stored value.** Regular expressions, code with a scope and pointers into databases are left
out: they are kept as they are, as `code` is, and rank with it in the order. -/
inductive Value where
  | null
  | undefined
  | minKey
  | maxKey
  | bool (b : Bool)
  | int32 (n : Int32)
  | int64 (n : Int64)
  | double (d : Double)
  | decimal128 (bytes : List UInt8)
  | string (s : String)
  | symbol (s : String)
  | code (s : String)
  | binary (subtype : UInt8) (bytes : List UInt8)
  | objectId (bytes : List UInt8)
  | dateTime (millis : Int64)
  | timestamp (time increment : UInt32)
  | array (items : List Value)
  | document (fields : List (String × Value))

/-- **A document**, its fields in order. -/
abbrev Document := List (String × Value)

namespace Document

/-- The value of the first field with the key. -/
def value? : Document → String → Option Value
  | [], _ => none
  | (k, v) :: r, key => if k = key then some v else value? r key

/-- **Writes a field**: in place when the key is present, at the end otherwise. -/
def put : Document → String → Value → Document
  | [], key, value => [(key, value)]
  | (k, v) :: r, key, value => if k = key then (k, value) :: r else (k, v) :: put r key value

/-- Drops the field with the key; the others keep their order. -/
def without : Document → String → Document
  | [], _ => []
  | (k, v) :: r, key => if k = key then r else (k, v) :: without r key

/-- The keys in order. -/
def keys (d : Document) : List String := d.map Prod.fst

/-- The document that writes the fields one after the other. -/
def ofFields (fields : List (String × Value)) : Document :=
  fields.foldl (fun d f => put d f.1 f.2) []

/-- The value of a field, a missing one counting as null. -/
def valueOrNull (d : Document) (key : String) : Value := (value? d key).getD .null

end Document

namespace Value

/-- The text of a string value. -/
def string? : Value → Option String
  | .string s => some s
  | _ => none

/-- The fields of an embedded document. -/
def document? : Value → Option Document
  | .document d => some d
  | _ => none

/-- The items of a list. -/
def array? : Value → Option (List Value)
  | .array items => some items
  | _ => none

def isNull : Value → Bool
  | .null => true
  | _ => false

/-- **The numeric value** of an integer or a double, as a double. A 64-bit integer is rounded to
the nearest double. -/
def number? : Value → Option Double
  | .int32 n => some (Double.ofInt n.toInt)
  | .int64 n => some (Double.ofInt n.toInt)
  | .double d => some d
  | _ => none

/-! ### Ids -/

/-- The subtype of binary values that hold uuids. -/
def uuidSubtype : UInt8 := 4

/-- **The stored form of an id.** -/
def ofUuid (u : Uuid) : Value := .binary uuidSubtype u.bytes

/-- The stored form of a list of ids. -/
def ofUuids (us : List Uuid) : Value := .array (us.map ofUuid)

/-- **The id a value refers to**: sixteen bytes of the uuid subtype, or the text of an id. -/
def uuid? : Value → Option Uuid
  | .binary subtype bytes => if subtype = uuidSubtype then Uuid.ofBytes? bytes else none
  | .string s => Uuid.parse? s
  | _ => none

/-- The ids in a list; items that are no ids are passed over. -/
def uuids : Value → List Uuid
  | .array items => items.filterMap uuid?
  | _ => []

/-! ### Nesting -/

mutual

/-- **How deep values are nested** in a value; a scalar has depth one. -/
def depth : Value → Nat
  | .array items => 1 + itemsDepth items
  | .document fields => 1 + fieldsDepth fields
  | _ => 1

def itemsDepth : List Value → Nat
  | [] => 0
  | v :: r => max (depth v) (itemsDepth r)

def fieldsDepth : List (String × Value) → Nat
  | [] => 0
  | (_, v) :: r => max (depth v) (fieldsDepth r)

end

/-! ### Laws -/

@[simp] theorem uuid?_ofUuid (u : Uuid) : (ofUuid u).uuid? = some u := by
  simp [ofUuid, uuid?, Uuid.ofBytes?_bytes]

@[simp] theorem uuids_ofUuids (us : List Uuid) : (ofUuids us).uuids = us := by
  induction us with
  | nil => rfl
  | cons u us ih => simpa [ofUuids, uuids] using ih

end Value

namespace Document

@[simp] theorem value?_put_self (d : Document) (key : String) (value : Value) :
    value? (put d key value) key = some value := by
  induction d with
  | nil => simp [put, value?]
  | cons f r ih =>
    by_cases h : f.1 = key
    · simp [put, value?, h]
    · simp [put, value?, h, ih]

@[simp] theorem value?_put_of_ne (d : Document) {key other : String} (value : Value)
    (h : other ≠ key) : value? (put d key value) other = value? d other := by
  induction d with
  | nil => simp [put, value?, Ne.symm h]
  | cons f r ih =>
    by_cases hk : f.1 = key
    · simp [put, value?, hk, Ne.symm h]
    · by_cases ho : f.1 = other
      · simp [put, value?, ho, h]
      · simp [put, value?, hk, ho, ih]

@[simp] theorem value?_without_of_ne (d : Document) {key other : String} (h : other ≠ key) :
    value? (without d key) other = value? d other := by
  induction d with
  | nil => rfl
  | cons f r ih =>
    by_cases hk : f.1 = key
    · simp [without, value?, hk, Ne.symm h]
    · by_cases ho : f.1 = other
      · simp [without, value?, ho, h]
      · simp [without, value?, hk, ho, ih]

end Document

end Registrar
