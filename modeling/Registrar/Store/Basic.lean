import Registrar.Outcome
import Registrar.Store.Query
import Registrar.Store.Update

/-!
# The store in memory

A **store** holds documents in named collections, each document under the uuid it was inserted
with. A collection keeps its entries in the order of their uuids. A missing collection answers like
an empty one, and the first insertion makes it. A write that is meant for one document takes the
first entry that meets the filter.

* `Store.find`, `Store.count`: reading.
* `Store.insert`: adds a document, unless its uuid is taken.
* `Store.updateFirst`, `Store.updateAll`, `Store.deleteFirst`, `Store.deleteAll`: writes by filter,
  with the number of documents concerned.
-/

namespace Registrar

/-- **The entries of a collection**, in the order of their uuids. -/
abbrev Entries := List (Uuid × Document)

namespace Entries

def documents (es : Entries) : List Document := es.map Prod.snd

/-- Whether an entry meets a filter. -/
def meets (f : Filter) (e : Uuid × Document) : Bool := f.holds e.2

def hasKey (es : Entries) (id : Uuid) : Bool := es.any (·.1 == id)

/-- Puts an entry in its place. -/
def insert (es : Entries) (id : Uuid) (d : Document) : Entries :=
  match es with
  | [] => [(id, d)]
  | e :: r => if id.compare e.1 = .lt then (id, d) :: e :: r else e :: insert r id d

/-- Updates the first entry that meets the filter. -/
def updateFirst (f : Filter) (u : Update) : Entries → Entries
  | [] => []
  | e :: r => if meets f e then (e.1, u.apply e.2) :: r else e :: updateFirst f u r

/-- Updates every entry that meets the filter. -/
def updateAll (f : Filter) (u : Update) (es : Entries) : Entries :=
  es.map fun e => if meets f e then (e.1, u.apply e.2) else e

/-- Drops the first entry that meets the filter. -/
def deleteFirst (f : Filter) (es : Entries) : Entries := es.eraseP (meets f)

/-- Drops every entry that meets the filter. -/
def deleteAll (f : Filter) (es : Entries) : Entries := es.filter fun e => !meets f e

end Entries

/-- **A store**: its collections by name. -/
structure Store where
  collections : List (String × Entries) := []

namespace Store

/-- The store without collections. -/
def empty : Store := {}

/-- The collection with the name, if there is one. -/
def collection? (s : Store) (name : String) : Option Entries :=
  (s.collections.find? (·.1 == name)).map Prod.snd

/-- The entries of a collection; a missing one has none. -/
def entries (s : Store) (name : String) : Entries := (s.collection? name).getD []

/-- Changes the entries of a collection that exists. -/
def modify (s : Store) (name : String) (f : Entries → Entries) : Store :=
  ⟨s.collections.map fun c => if c.1 == name then (c.1, f c.2) else c⟩

/-- Makes a collection, unless it exists. -/
def create (s : Store) (name : String) : Store :=
  if (s.collection? name).isSome then s else ⟨s.collections ++ [(name, [])]⟩

/-- Drops a collection with all its documents. -/
def drop (s : Store) (name : String) : Store := ⟨s.collections.filter (·.1 != name)⟩

/-- The names of the collections, sorted. -/
def names (s : Store) : List String := sortBy compare (s.collections.map Prod.fst)

/-- The number of documents in a collection. -/
def size (s : Store) (name : String) : Nat := (s.entries name).length

/-! ### Reading -/

/-- **The answer to a query.** -/
def find (s : Store) (q : Query) (name : String) : List Document :=
  q.answer (s.entries name).documents

/-- **The number of documents that meet a filter.** -/
def count (s : Store) (filter : Option Filter) (name : String) : Nat :=
  ((s.entries name).filter fun e => Filter.admits filter e.2).length

/-- The number of documents that a write by filter concerns. -/
def matched (s : Store) (f : Filter) (name : String) : Nat :=
  ((s.entries name).filter (Entries.meets f)).length

/-! ### Writing -/

/-- **Inserts a document** under a uuid that is free. -/
def insert (s : Store) (id : Uuid) (d : Document) (name : String) : Except StoreError Store :=
  if (s.entries name).hasKey id then .error (.documentAlreadyExists id.text name)
  else .ok ((s.create name).modify name (·.insert id d))

/-- Updates the first document that meets the filter. -/
def updateFirst (s : Store) (f : Filter) (u : Update) (name : String) : Store × Nat :=
  (s.modify name (Entries.updateFirst f u), min 1 (s.matched f name))

/-- Updates every document that meets the filter. -/
def updateAll (s : Store) (f : Filter) (u : Update) (name : String) : Store × Nat :=
  (s.modify name (Entries.updateAll f u), s.matched f name)

/-- Deletes the first document that meets the filter. -/
def deleteFirst (s : Store) (f : Filter) (name : String) : Store × Nat :=
  (s.modify name (Entries.deleteFirst f), min 1 (s.matched f name))

/-- Deletes every document that meets the filter. -/
def deleteAll (s : Store) (f : Filter) (name : String) : Store × Nat :=
  (s.modify name (Entries.deleteAll f), s.matched f name)

end Store

end Registrar
