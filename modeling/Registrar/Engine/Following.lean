import Registrar.Change.Difference
import Registrar.Engine.Policy
import Registrar.Engine.Program

/-!
# Following relations

An entity stores the ids of the entities it refers to. Following a relation fetches these entities
with one query and then

* **prunes** the ids of entities that do not exist, the others keeping their order, and
* **hydrates** the entity with copies of those that the viewer may access.

Pruning asks only whether an entity exists; what is hidden from the viewer stays referred to.

* `Relation.targetIds`: the ids that a relation stores in a document.
* `Relation.lookup`: what one relation does to a document, given what was fetched.
* `Schema.resolve`, `Schema.hydrateEach`: one document and many documents.
* `entityExists`: whether there is an entity with an id.
-/

namespace Registrar

/-- What following relations does besides fetching. -/
structure FollowOptions where
  prune : Bool
  hydrate : Bool
  deriving DecidableEq

/-- The entities that were fetched, by id. -/
abbrev Found := List (Uuid × Document)

namespace Found

/-- The documents that have an id, by this id. -/
def ofDocuments (ds : List Document) : Found :=
  ds.filterMap fun d => ((d.value? "id").bind Value.uuid?).map fun id => (id, d)

def get? (found : Found) (id : Uuid) : Option Document :=
  (found.find? (·.1 == id)).map Prod.snd

def ids (found : Found) : List Uuid := found.map Prod.fst

end Found

/-- For whom entities are hydrated; nothing is hidden from nobody. -/
abbrev Viewer := Option (AccessPolicy × Caller)

namespace Relation

/-- **The ids that the relation stores in a document.** -/
def targetIds (r : Relation) (d : Document) : List Uuid :=
  let value := d.valueOrNull r.idField
  match r.cardinality with
  | .many => value.uuids
  | .one => value.uuid?.toList

/-- The stored value for ids that are left after pruning. -/
def prunedValue (r : Relation) (kept : List Uuid) : Value :=
  match r.cardinality with
  | .many => Value.ofUuids kept
  | .one => .null

/-- The copies that are filled in for the entities shown. -/
def navigationValue (r : Relation) (shown : List Document) : Value :=
  match r.cardinality with
  | .many => .array (shown.map .document)
  | .one => (shown.head?.map Value.document).getD .null

/-- **What a relation does to a document**, and the new value of its id field if ids were
pruned. -/
def lookup (r : Relation) (options : FollowOptions) (found : Found) (hidden : List Uuid)
    (d : Document) : Document × Option Value :=
  let ids := r.targetIds d
  let kept := ids.filter fun id => (found.get? id).isSome
  let pruned :=
    if options.prune && kept.length != ids.length then some (r.prunedValue kept) else none
  let d := match pruned with
    | some v => d.put r.idField v
    | none => d
  let shown := (kept.filter (· ∉ hidden)).filterMap found.get?
  let d := if options.hydrate then d.put r.navigation (r.navigationValue shown) else d
  (d, pruned)

/-- Fetches the entities with the ids. Without ids there is nothing to fetch. -/
def fetch (r : Relation) (ids : List Uuid) : StoreM Found :=
  if ids.isEmpty then pure []
  else do
    let ds ← StoreM.guarded (StoreM.find (.filtered (some (.hasIdIn ids))) r.target)
    return Found.ofDocuments ds

/-- The ids among the fetched entities that the viewer may not access. -/
def hidden (r : Relation) (viewer : Viewer) (found : Found) : Except StoreError (List Uuid) :=
  match viewer with
  | none => .ok []
  | some (policy, caller) => do
    let accessible ← policy.grantedAmong r.target caller found.ids
    return found.ids.filter (· ∉ accessible)

/-- Follows one relation of one document. -/
def resolve (r : Relation) (viewer : Viewer) (options : FollowOptions) (d : Document) :
    StoreM (Document × Option Value) := do
  let found ← r.fetch (r.targetIds d)
  let hidden ← StoreM.ofExcept (if options.hydrate then r.hidden viewer found else .ok [])
  return r.lookup options found hidden d

/-- The ids that the relation stores in several documents, each once. -/
def targetIdsInAll (r : Relation) (ds : List Document) : List Uuid :=
  (ds.flatMap r.targetIds).foldl (fun ids id => if id ∈ ids then ids else ids ++ [id]) []

/-- Fills in the copies for one relation of several documents. -/
def hydrate (r : Relation) (viewer : Viewer) (ds : List Document) : StoreM (List Document) := do
  let found ← r.fetch (r.targetIdsInAll ds)
  let hidden ← StoreM.ofExcept (r.hidden viewer found)
  return ds.map fun d => (r.lookup ⟨false, true⟩ found hidden d).1

/-- Follows relations one after the other, collecting the pruned id fields. -/
def resolveAll (viewer : Viewer) (options : FollowOptions) :
    List Relation → Document → Changes → StoreM (Document × Changes)
  | [], d, changes => pure (d, changes)
  | r :: rs, d, changes => do
    let (d, pruned) ← r.resolve viewer options d
    let changes := match pruned with
      | some v => Document.put changes r.idField v
      | none => changes
    resolveAll viewer options rs d changes

/-- Fills in the copies for relations one after the other. -/
def hydrateEach (viewer : Viewer) : List Relation → List Document → StoreM (List Document)
  | [], ds => pure ds
  | r :: rs, ds => do
    let ds ← r.hydrate viewer ds
    hydrateEach viewer rs ds

end Relation

namespace Schema

/-- The relations that names stand for; all of them when there are no names. -/
def chosenRelations (s : Schema) (only : Option (List String)) : List Relation :=
  match only with
  | none => s.relations
  | some names =>
    s.relations.filter fun r =>
      names.any fun name => ((s.relation? name).map Relation.idField) = some r.idField

/-- **Follows the chosen relations of a document**; the result tells which id fields were pruned
and what they hold now. -/
def resolve (s : Schema) (viewer : Viewer) (options : FollowOptions)
    (only : Option (List String)) (d : Document) : StoreM (Document × Changes) :=
  Relation.resolveAll viewer options (s.chosenRelations only) d []

/-- **Fills in the copies of many documents**, with one query for each relation. -/
def hydrateEach (s : Schema) (viewer : Viewer) (ds : List Document) : StoreM (List Document) :=
  Relation.hydrateEach viewer s.relations ds

end Schema

/-- **Whether there is an entity with the id.** -/
def entityExists (collection : String) (id : Uuid) : StoreM Bool := do
  let n ← StoreM.guarded (StoreM.count (some (.hasId id)) collection)
  return 0 < n

end Registrar
