import Registrar.Filter.Evaluate
import Registrar.Value.Order

/-!
# Queries

A **query** asks for the documents that meet a filter, in the order of some sort keys, from an
offset on and up to a limit. A sort key is a path; in a list it means the first document of the
list that has the next segment.

* `Document.lookup?`: the value that a document is sorted by.
* `orderDocuments`: the order of two documents under sort keys.
* `Query.answer`: the answer to a query over the documents of a collection.
-/

namespace Registrar

inductive Direction where
  | asc
  | desc
  deriving DecidableEq

namespace Direction

/-- The name of a direction. -/
def name : Direction → String
  | .asc => "asc"
  | .desc => "desc"

def ofAscending (ascending : Bool) : Direction := if ascending then .asc else .desc

/-- An ordering as the direction turns it. -/
def apply : Direction → Ordering → Ordering
  | .asc, o => o
  | .desc, o => o.swap

end Direction

/-- **A sort key.** -/
structure SortKey where
  path : String
  direction : Direction
  deriving DecidableEq

namespace Document

/-- Follows segments downwards; in a list, into the first document that has the segment. -/
def follow? : List String → Value → Option Value
  | [], v => some v
  | s :: r, .document d => (value? d s).bind (follow? r)
  | s :: r, .array items =>
    (items.findSome? fun item => item.document?.bind (value? · s)).bind (follow? r)
  | _ :: _, _ => none

/-- **The value a document is sorted by** under a path. -/
def lookup? (d : Document) (path : String) : Option Value :=
  follow? (Text.segments path) (.document d)

end Document

/-- The order of two values under a key. -/
def SortKey.order (k : SortKey) (a b : Document) : Ordering :=
  k.direction.apply
    (((a.lookup? k.path).getD .null).order ((b.lookup? k.path).getD .null))

/-- **The order of two documents**, earlier keys deciding first. -/
def orderDocuments : List SortKey → Document → Document → Ordering
  | [], _, _ => .eq
  | k :: ks, a, b => (k.order a b).then (orderDocuments ks a b)

/-- **A query.** -/
structure Query where
  filter : Option Filter := none
  limit : Option Nat := none
  offset : Option Nat := none
  sort : List SortKey := []

namespace Query

/-- The query for all documents that meet a filter. -/
def filtered (filter : Option Filter) : Query := { filter }

/-- Equality of queries, operands by type and value. -/
def same (p q : Query) : Bool :=
  (match p.filter, q.filter with
    | some f, some g => f.same g
    | none, none => true
    | _, _ => false) &&
  p.limit == q.limit && p.offset == q.offset && p.sort == q.sort

/-- The part of a list from an offset on, up to a limit. -/
def window {α : Type} (offset limit : Option Nat) (xs : List α) : List α :=
  let rest := xs.drop (offset.getD 0)
  match limit with
  | some n => rest.take n
  | none => rest

/-- **The answer to a query** over documents that come in any order. -/
def answer (q : Query) (documents : List Document) : List Document :=
  window q.offset q.limit
    (sortBy (orderDocuments q.sort) (documents.filter (Filter.admits q.filter)))

end Query

end Registrar
