import Registrar.Engine.Collection

/-!
# Writing entities

The operations that change entities. Each looks before it writes, makes at most one request that
changes the store, and makes it last; whether it was cancelled is asked once more just before.

* `Collection.add`, `Collection.delete`: one entity comes or goes.
* `Collection.update`, `Collection.applyDelta`: all of an entity, or what is named of it.
* `Collection.assign`, `Collection.deleteListed`: the listed entities that the caller may access.
* `Collection.link`, `Collection.unlink`, `Collection.refer`: one reference.
-/

namespace Registrar

/-- **What an update wrote**: the fields, none when nothing had changed. -/
structure WriteReport where
  id : Uuid
  changedFields : List String

namespace WriteReport

def wroteNothing (s : WriteReport) : Bool := s.changedFields.isEmpty

end WriteReport

/-- **An assignment** of the named properties of a template to several entities. -/
structure Assignment (E : Type) where
  ids : List Uuid
  properties : List String
  template : E

namespace Collection

variable {E : Type} (c : Collection E) (caller : Caller)

/-! ### Adding -/

/-- The document of a new entity, without copies of other entities. -/
def withoutNavigation (d : Document) : Document :=
  (c.schema.fieldsInRole .navigation).foldl (fun d f => Document.without d f.name) d

/-- Gives every list of references a list to stand in. -/
def withLists (d : Document) : Document :=
  c.schema.relations.foldl (fun d r =>
    if r.cardinality = .many && ((Document.value? d r.idField).bind Value.array?).isNone then
      Document.put d r.idField (.array [])
    else d) d

/-- A new entity in its canonical form, with an id. -/
def prepared (e : E) : OperationM E := do
  let e ← OperationM.ofProgram (Program.ofDraws (c.kind.normalize e))
  if c.kind.isUnassigned e then
    let id ← OperationM.ofProgram (Program.request .newId)
    return c.kind.withId id e
  else return e

/-- The document of a new entity as it is inserted. -/
def stampedNew (d : Document) : OperationM Document := do
  let stamps ← c.stamps caller
  let stamped := stamps.foldl (fun d s => Document.put d s.1 s.2) d
  return match c.schema.versionName? with
    | some field => stamped.put field (.int64 0)
    | none => stamped

/-- **Adds an entity** and gives it back as stored. An id or a unique name that is taken is
refused. -/
def add (e : E) : OperationM E := do
  let place := c.place "add"
  let e ← c.prepared e
  let id := c.kind.id e
  if ← OperationM.inPlace place (entityExists c.name id) then
    throw (.duplicateObject id.text)
  let d := c.withoutNavigation (c.kind.toDocument e)
  if c.settings.validateUniqueNames then c.refuseTakenName d id place
  let (d, _) ← OperationM.inPlace place
    (c.schema.resolve none ⟨true, false⟩ none (c.withLists d))
  let d ← c.stampedNew caller d
  OperationM.inPlace place do
    StoreM.check
    StoreM.insert id d c.name
  OperationM.inPlace place (c.ofDocument d)

/-! ### Updating one entity -/

/-- Refuses a changed name that another entity has. -/
def refuseTakenRename (changes : Changes) (id : Uuid) (place : String) : OperationM Unit :=
  match c.schema.uniqueName with
  | some field =>
    match changes.value? field with
    | some v => c.refuseTakenName [(field, v)] id place
    | none => pure ()
  | none => pure ()

/-- **Writes the changes of an entity that was loaded**, if there are any. -/
def commit (id : Uuid) (existing : Document) (changes : Changes) (place : String) :
    OperationM WriteReport := do
  if changes.isEmpty then return ⟨id, []⟩
  else
    if c.settings.validateUniqueNames then c.refuseTakenRename changes id place
    c.writeStamped caller id (c.knownVersion existing) changes place
    return ⟨id, changes.keys⟩

/-- Prunes what is submitted, if asked to. -/
def prunedIf (prune : Bool) (only : Option (List String)) (d : Document) (place : String) :
    OperationM Document := do
  if prune then
    let (d, _) ← OperationM.inPlace place (c.schema.resolve none ⟨true, false⟩ only d)
    return d
  else return d

/-- **Replaces the data of an entity**, writing the fields that differ. References are written
only when asked for, which the settings decide unless the caller does. -/
def update (e : E) (includeDependencies : Option Bool) : OperationM WriteReport := do
  let place := c.place "update"
  let id := c.kind.id e
  let existing ← c.load caller id place
  let e ← OperationM.ofProgram (Program.ofDraws (c.kind.normalize e))
  let dependencies := includeDependencies.getD c.settings.includeDependencyFields
  let proposed ← c.prunedIf (dependencies && c.settings.lookupOnUpdate) none (c.kind.toDocument e)
    place
  c.commit caller id existing (c.schema.diff dependencies existing proposed) place

/-- Whether one of the names stands for a relation. -/
def touchesRelation (names : List String) : Bool :=
  names.any fun name => (c.schema.relation? name).isSome

/-- **Writes what a delta names**, and nothing else. -/
def applyDelta (delta : Delta E) : OperationM WriteReport := do
  let place := c.place "update_delta"
  let existing ← c.load caller delta.id place
  if delta.isEmpty then return ⟨delta.id, []⟩
  else
    let data ← OperationM.ofProgram
      (Program.ofDraws (c.kind.normalize (c.kind.withId delta.id delta.data)))
    let roots := delta.roots
    let patch ← c.prunedIf (c.touchesRelation roots && c.settings.lookupOnUpdate) (some roots)
      (c.kind.toDocument data) place
    let changes := c.schema.plan delta.properties delta.paths patch (some existing)
    c.commit caller delta.id existing changes place

/-! ### Several entities -/

/-- The refusal to give one name to several entities. -/
def sharedName (field : String) (n : Nat) : Failure :=
  .invalidArgument ("'" ++ field ++ "' must be unique and cannot be assigned to " ++ toString n ++
    " entities")

/-- Refuses changes that would give several entities one name. -/
def refuseShared (changes : Changes) (n : Nat) : OperationM Unit :=
  match c.schema.uniqueName with
  | some field =>
    if (changes.value? field).isSome && 1 < n then throw (sharedName field n) else pure ()
  | none => pure ()

/-- The filter for the entities with the ids, as far as the caller may see them. -/
def visibleAmong (ids : List Uuid) : Filter := c.visible caller (.hasIdIn ids)

/-- **Assigns properties of a template** to the listed entities that the caller may access, and
tells how many there were. -/
def assign (bulk : Assignment E) : OperationM Nat := do
  let place := c.place "bulk_update"
  let ids ← OperationM.inPlace place
    (StoreM.ofExcept (c.policy.grantedAmong c.name caller bulk.ids))
  if ids.isEmpty then return 0
  else
    let template ← OperationM.ofProgram (Program.ofDraws (c.kind.normalize bulk.template))
    let patch ← c.prunedIf (c.touchesRelation bulk.properties && c.settings.lookupOnUpdate)
      (some bulk.properties) (c.kind.toDocument template) place
    let changes := c.schema.plan bulk.properties [] patch none
    if changes.isEmpty then return 0
    else
      c.refuseShared changes ids.length
      let update ← c.stampedUpdate caller changes
      OperationM.inPlace place do
        StoreM.check
        StoreM.updateAll (c.visibleAmong caller ids) (c.withVersion update) c.name

/-- **Deletes the listed entities** that the caller may access, and tells how many there were. -/
def deleteListed (ids : List Uuid) : OperationM Nat := do
  let place := c.place "bulk_delete"
  let ids ← OperationM.inPlace place
    (StoreM.ofExcept (c.policy.grantedAmong c.name caller ids))
  if ids.isEmpty then return 0
  else
    OperationM.inPlace place do
      StoreM.check
      StoreM.deleteAll (c.visibleAmong caller ids) c.name

/-- **Deletes an entity.** -/
def delete (id : Uuid) : OperationM Unit := do
  let place := c.place "delete"
  let _ ← c.load caller id place
  let deleted ← OperationM.inPlace place do
    StoreM.check
    StoreM.deleteFirst (.hasId id) c.name
  if deleted = 0 then throw (.missing c.name id)

/-! ### References -/

/-- The relation with a name and a cardinality. -/
def relation (name : String) (cardinality : Cardinality) : OperationM Relation :=
  match (c.schema.relation? name).filter (·.cardinality = cardinality) with
  | some r => pure r
  | none =>
    throw (.invalidArgument
      (c.name ++ " has no " ++ cardinality.name ++ " relation named '" ++ name ++ "'"))

/-- Writes the id field of a relation. -/
def writeReferences (id : Uuid) (existing : Document) (r : Relation) (value : Value)
    (place : String) : OperationM Bool := do
  c.writeStamped caller id (c.knownVersion existing) [(r.idField, value)] place
  return true

/-- Fails unless the entity to refer to exists. -/
def requireTarget (r : Relation) (target : Uuid) (place : String) : OperationM Unit := do
  if !(← OperationM.inPlace place (entityExists r.target target)) then
    throw (.missing r.target target)

/-- **Adds an id to the list of a relation**, and tells whether the list changed. -/
def link (id : Uuid) (relationName : String) (target : Uuid) : OperationM Bool := do
  let place := c.place "associate"
  let r ← c.relation relationName .many
  let existing ← c.load caller id place
  let ids := (existing.valueOrNull r.idField).uuids
  if target ∈ ids then return false
  else
    requireTarget r target place
    c.writeReferences caller id existing r (Value.ofUuids (ids ++ [target])) place

/-- **Takes an id out of the list of a relation**, and tells whether the list changed. -/
def unlink (id : Uuid) (relationName : String) (target : Uuid) : OperationM Bool := do
  let place := c.place "dissociate"
  let r ← c.relation relationName .many
  let existing ← c.load caller id place
  let ids := (existing.valueOrNull r.idField).uuids
  if target ∈ ids then
    c.writeReferences caller id existing r (Value.ofUuids (ids.filter (· ≠ target))) place
  else return false

/-- **Points a relation at an entity**, or at none, and tells whether it pointed elsewhere. -/
def refer (id : Uuid) (relationName : String) (target : Option Uuid) : OperationM Bool := do
  let place := c.place "set_reference"
  let r ← c.relation relationName .one
  let existing ← c.load caller id place
  if (existing.value? r.idField).bind Value.uuid? = target then return false
  else
    match target with
    | some t =>
      requireTarget r t place
      c.writeReferences caller id existing r (Value.ofUuid t) place
    | none => c.writeReferences caller id existing r .null place

end Collection

end Registrar
