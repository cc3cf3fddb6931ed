import Registrar.Engine.Collection
import Registrar.Search.Paging
import Registrar.Search.SortPlan

/-!
# Reading entities

The operations that read entities. A look-up also follows the references of an entity, and may
write back what it pruned. A search has two ways to its page: the store counts, sorts and pages by
itself when the order needs no other entities and the visibility filter is complete; otherwise all
matches are fetched, narrowed to what the caller may access, sorted, and cut here.

* `Collection.get`: one entity.
* `Collection.search`: one page of the entities that a caller seeks.
* `Collection.sortByReferences`: sorting by fields of the entities referred to.
-/

namespace Registrar

/-- **An entity as read**, and the id fields that were pruned while it was read. -/
structure ReadReport (E : Type) where
  entity : E
  changedFields : List String

/-- A failure of a part of an operation that does not count. -/
def OperationM.attempt (p : OperationM Unit) : OperationM Unit :=
  ExceptT.mk (Program.bind p.run fun _ => .done (.ok ()))

namespace Collection

variable {E : Type} (c : Collection E) (caller : Caller)

/-- For whom this collection's entities are hydrated. -/
def viewer : Viewer := some (c.policy, caller)

/-! ### One entity -/

/-- Writes back pruned id fields; a failure to do so does not count. -/
def persistPruned (id : Uuid) (version : Option Int64) (changes : Changes) (place : String) :
    OperationM Unit :=
  if !changes.isEmpty && c.settings.persistPrunedReferences then
    OperationM.attempt (c.writeUpdate id version (updateOf changes) place)
  else pure ()

/-- **Reads an entity.** With a look-up its references are followed, for the caller. -/
def get (id : Uuid) (lookup : Bool) : OperationM (ReadReport E) := do
  let place := c.place "get"
  let d ← c.load caller id place
  if lookup then
    let (resolved, changes) ← OperationM.inPlace place
      (c.schema.resolve (c.viewer caller) ⟨true, true⟩ none d)
    c.persistPruned id (c.knownVersion d) changes place
    let e ← OperationM.inPlace place (c.ofDocument resolved)
    return ⟨e, changes.keys⟩
  else
    let e ← OperationM.inPlace place (c.ofDocument d)
    return ⟨e, []⟩

/-! ### Order by other entities -/

/-- The values that a term of a sort plan sorts by, for the entities referred to. -/
abbrev TermValues := List (Uuid × Value)

/-- The ids that a field of several documents holds, each once. -/
def idsOfField (field : String) (ds : List Document) : List Uuid :=
  (ds.filterMap fun d => (d.value? field).bind Value.uuid?).foldl
    (fun ids id => if id ∈ ids then ids else ids ++ [id]) []

/-- Fetches what a term sorts by. -/
def termValues (ds : List Document) (t : SortTerm) : StoreM TermValues :=
  match t.target with
  | .field _ => pure []
  | .reference idField target targetField => do
    let ids := idsOfField idField ds
    if ids.isEmpty then return []
    else
      let found ← StoreM.guarded (StoreM.find (.filtered (some (.hasIdIn ids))) target)
      return (Found.ofDocuments found).map fun (id, d) => (id, (d.lookup? targetField).getD .null)

/-- The value that a document is sorted by under a term; null when there is none. -/
def sortValue (d : Document) (t : SortTerm) (values : TermValues) : Value :=
  match t.target with
  | .field path => (d.lookup? path).getD .null
  | .reference idField _ _ =>
    match (d.value? idField).bind Value.uuid? with
    | some id => ((values.find? fun v => v.1 == id).map Prod.snd).getD .null
    | none => .null

/-- The order of two lists of sort values under the terms of a plan. -/
def compareKeys : SortPlan → List Value → List Value → Ordering
  | t :: ts, a :: as, b :: bs => (t.direction.apply (a.order b)).then (compareKeys ts as bs)
  | _, _, _ => .eq

/-- Documents sorted by a plan, given the values of its terms. -/
def sortByKeys (plan : SortPlan) (values : List TermValues) (ds : List Document) :
    List Document :=
  let keyed := ds.map fun d => (List.zipWith (sortValue d) plan values, d)
  (sortBy (fun a b => compareKeys plan a.1 b.1) keyed).map Prod.snd

/-- **Sorts documents by fields of the entities that they refer to.** -/
def sortByReferences (plan : SortPlan) (ds : List Document) : StoreM (List Document) := do
  let values ← plan.mapM (termValues ds)
  return sortByKeys plan values ds

/-! ### Searching -/

/-- The documents that the caller may access, in their order. -/
def grantedDocuments (ds : List Document) : StoreM (List Document) := do
  let idOf := fun (d : Document) => (d.value? "id").bind Value.uuid?
  let accessible ← StoreM.guarded
    (StoreM.ofExcept (c.policy.grantedAmong c.name caller (ds.filterMap idOf)))
  return ds.filter fun d =>
    match idOf d with
    | some id => id ∈ accessible
    | none => false

/-- The store counts, sorts and pages. -/
def searchInStore (filter : Option Filter) (plan : SortPlan) (window : Paging) :
    StoreM (Nat × List Document) := do
  let count ← StoreM.guarded (StoreM.count filter c.name)
  let query : Query := {
    filter
    limit := window.pageSize.map UInt64.toNat
    offset := if window.offset = 0 then none else some window.offset.toNat
    sort := plan.nativeKeys }
  let ds ← StoreM.guarded (StoreM.find query c.name)
  return (count, ds)

/-- All matches are fetched, narrowed, sorted and cut. -/
def searchHere (filter : Option Filter) (plan : SortPlan) (window : Paging)
    (narrowed : Bool) : StoreM (Nat × List Document) := do
  let query : Query := { filter, sort := plan.nativeKeys }
  let ds ← StoreM.guarded (StoreM.find query c.name)
  let ds ← if narrowed then c.grantedDocuments caller ds else pure ds
  let ds ← if plan.isNative then pure ds else sortByReferences plan ds
  return (ds.length, window.cut ds)

/-- The filter of a search, with what hides entities from the caller. -/
def searchFilter (p : Inquiry) : Except StoreError (Option Filter) := do
  let filter ← c.schema.filterOf p
  return Filter.all? (filter.toList ++ (c.policy.visibility c.name caller).toList)

/-- **Searches** for one page of entities. -/
def search (p : Inquiry) : OperationM (SearchPage E) := do
  let place := c.place "search"
  let filter ← OperationM.inPlace place (StoreM.ofExcept (c.searchFilter caller p))
  let plan ← OperationM.inPlace place
    (StoreM.ofExcept (SortPlan.resolve c.schema p.sortBy p.sortAscending))
  let window := Paging.ofPage p.page p.pageSize
  let narrowed := !c.policy.isComplete c.name caller
  let (count, ds) ← OperationM.inPlace place
    (if plan.isNative && !narrowed then c.searchInStore filter plan window
      else c.searchHere caller filter plan window narrowed)
  let ds ← OperationM.inPlace place
    (if p.includeDependents then c.schema.hydrateEach (c.viewer caller) ds else pure ds)
  let results ← OperationM.inPlace place (ds.mapM c.ofDocument)
  let itemCount := UInt64.ofNat count
  return {
    more := window.leavesMore itemCount (UInt64.ofNat results.length)
    page := window.page.toInt64
    pageSize := p.pageSize
    itemCount
    results }

end Collection

end Registrar
