import Registrar.Value.Basic

/-!
# Equality of values

Values are equal in two senses. They are the **same** when type and value agree; documents are then
compared without regard to the order of their fields. They **agree** when a reader of the data
would call them equal: numbers are compared by value across their types, and a missing field of a
document counts as null. In both senses a NaN differs from itself.

* `Value.same`: the strict sense.
* `Value.agrees`: the lenient sense, by which changes are detected.
-/

namespace Registrar.Value

/-- The strict sense on values without parts. -/
def sameScalar : Value → Value → Bool
  | .null, .null => true
  | .undefined, .undefined => true
  | .minKey, .minKey => true
  | .maxKey, .maxKey => true
  | .bool a, .bool b => a == b
  | .int32 a, .int32 b => a == b
  | .int64 a, .int64 b => a == b
  | .double a, .double b => a.same b
  | .decimal128 a, .decimal128 b => a == b
  | .string a, .string b => a == b
  | .symbol a, .symbol b => a == b
  | .code a, .code b => a == b
  | .binary s a, .binary t b => s == t && a == b
  | .objectId a, .objectId b => a == b
  | .dateTime a, .dateTime b => a == b
  | .timestamp a i, .timestamp b j => a == b && i == j
  | _, _ => false

mutual

/-- **The strict sense**: equal in type and value. -/
def same : Value → Value → Bool
  | .array as, .array bs => sameItems as bs
  | .document fs, .document gs => fs.length == gs.length && sameFields fs gs
  | a, b => sameScalar a b

def sameItems : List Value → List Value → Bool
  | [], [] => true
  | a :: as, b :: bs => same a b && sameItems as bs
  | _, _ => false

/-- Every field on the left has its like on the right. -/
def sameFields : List (String × Value) → Document → Bool
  | [], _ => true
  | (k, v) :: r, gs =>
    (match Document.value? gs k with
      | some w => same v w
      | none => false) && sameFields r gs

end

/-- The lenient sense on values without parts. -/
def agreesScalar (a b : Value) : Bool :=
  match a.number?, b.number? with
  | some x, some y => x.same y
  | _, _ => sameScalar a b

mutual

/-- **The lenient sense**: numbers by value, a missing field as null. -/
def agrees : Value → Value → Bool
  | .array as, .array bs => agreesItems as bs
  | .document fs, .document gs =>
    agreesEach fs gs && gs.all fun g => agreesAt fs g.1 g.2
  | a, b => agreesScalar a b

def agreesItems : List Value → List Value → Bool
  | [], [] => true
  | a :: as, b :: bs => agrees a b && agreesItems as bs
  | _, _ => false

/-- Every field on the left agrees with the field of that key on the right. -/
def agreesEach : List (String × Value) → Document → Bool
  | [], _ => true
  | (k, v) :: r, gs => agrees v (Document.valueOrNull gs k) && agreesEach r gs

/-- The field of that key on the left agrees with the value. -/
def agreesAt : List (String × Value) → String → Value → Bool
  | [], _, w => w.isNull
  | (k, v) :: r, key, w => if k = key then agrees v w else agreesAt r key w

end

end Registrar.Value
