import Registrar.Value.Basic

/-!
# Order of values

Values of different kinds are ordered by kind: null, numbers, texts, documents, lists, binary
values, object ids, booleans, dates, timestamps, and the rest. Within a kind numbers go by value,
texts by code points, bytes and lists by the first difference, and documents field by field. What
has no order of its own within its kind is equal to all of that kind, as a NaN is to every number.

* `Value.order`: the order.
* `sortBy`: a stable sort.
-/

namespace Registrar

namespace Value

/-- The place of a value's kind in the order. -/
def rank : Value → Nat
  | .null | .undefined => 0
  | .int32 _ | .int64 _ | .double _ | .decimal128 _ => 1
  | .string _ | .symbol _ => 2
  | .document _ => 3
  | .array _ => 4
  | .binary _ _ => 5
  | .objectId _ => 6
  | .bool _ => 7
  | .dateTime _ => 8
  | .timestamp _ _ => 9
  | .minKey | .maxKey | .code _ => 10

/-- False stands before true. -/
def orderBools : Bool → Bool → Ordering
  | false, true => .lt
  | true, false => .gt
  | _, _ => .eq

/-- The order of values of one kind without parts. -/
def orderScalars : Value → Value → Ordering
  | .string a, .string b => compare a b
  | .bool a, .bool b => orderBools a b
  | .dateTime a, .dateTime b => compare a.toInt b.toInt
  | .binary _ a, .binary _ b => compareBytes a b
  | a, b =>
    match a.number?, b.number? with
    | some x, some y => (x.compare? y).getD .eq
    | _, _ => .eq

mutual

/-- **The order of values.** -/
def order : Value → Value → Ordering
  | .array as, .array bs => orderItems as bs
  | .document fs, .document gs => orderFields fs gs
  | a, b => (compare a.rank b.rank).then (orderScalars a b)

def orderItems : List Value → List Value → Ordering
  | [], [] => .eq
  | [], _ :: _ => .lt
  | _ :: _, [] => .gt
  | a :: as, b :: bs => (order a b).then (orderItems as bs)

def orderFields : List (String × Value) → List (String × Value) → Ordering
  | [], [] => .eq
  | [], _ :: _ => .lt
  | _ :: _, [] => .gt
  | (k, a) :: as, (l, b) :: bs => ((compare k l).then (order a b)).then (orderFields as bs)

end

end Value

/-! ### Sorting -/

/-- Puts an item into a list that is sorted downwards, before its equals. -/
def insertDown {α : Type} (cmp : α → α → Ordering) (x : α) : List α → List α
  | [] => [x]
  | y :: r => if cmp x y = .lt then y :: insertDown cmp x r else x :: y :: r

/-- **A stable sort**: each item in turn moves forward past the greater ones before it. -/
def sortBy {α : Type} (cmp : α → α → Ordering) (xs : List α) : List α :=
  (xs.foldl (fun sorted x => insertDown cmp x sorted) []).reverse

end Registrar
