import Registrar.Change.Partial
import Registrar.Engine.Following
import Registrar.Engine.Settings

/-!
# Collections of entities

A **collection** is a kind of entity together with an access policy and the engine's
settings. This module holds what its operations have in common: loading an entity that the
caller may see, the stamps and the version that every write carries, and the check that a name is
not taken.

* `Collection.load`: the stored document of an entity; one that is hidden looks missing.
* `Collection.writeStamped`: a write that succeeds only if the entity is still as it was loaded.
* `Collection.refuseTakenName`: refuses a name that another entity has.
-/

namespace Registrar

/-- **A collection of entities.** -/
structure Collection (E : Type) where
  kind : EntityKind E
  policy : AccessPolicy
  settings : Settings

namespace Failure

/-- The entity with the id is missing, or hidden from the caller. -/
def missing (collection : String) (id : Uuid) : Failure :=
  .objectNotFound collection id.text

end Failure

namespace Collection

variable {E : Type} (c : Collection E) (caller : Caller)

def schema : Schema := c.kind.schema

def name : String := c.kind.schema.collection

/-- The place named in the details of a failure. -/
def place (operation : String) : String := c.name ++ "::" ++ operation

/-- A filter that also hides what the caller may not see. -/
def visible (f : Filter) : Filter :=
  match c.policy.visibility c.name caller with
  | some v => .and [f, v]
  | none => f

/-- Reads an entity from a document of the store. -/
def ofDocument (d : Document) : StoreM E :=
  StoreM.ofExcept (match c.kind.ofDocument? d with
    | some e => .ok e
    | none => .error (.serialization ""))

/-- **Loads the document of an entity** that the caller may see. -/
def load (id : Uuid) (place : String) : OperationM Document := do
  let query : Query := { filter := some (c.visible caller (.hasId id)), limit := some 1 }
  let ds ← OperationM.inPlace place (StoreM.guarded (StoreM.find query c.name))
  match ds.head? with
  | none => throw (.missing c.name id)
  | some d =>
    let accessible ← OperationM.inPlace place
      (StoreM.ofExcept (c.policy.grants c.name id caller))
    if accessible then return d else throw (.missing c.name id)

/-! ### Stamps and versions -/

/-- The fields that tell when and by whom an entity was written. -/
def stampsAt (now : Int64) : List (String × Value) :=
  c.schema.fields.filterMap fun f =>
    match f.role with
    | .updatedAt => some (f.name, .dateTime now)
    | .updatedBy => some (f.name, .string caller.stamp)
    | _ => none

/-- The stamps of the present moment. -/
def stamps : OperationM (List (String × Value)) :=
  OperationM.ofProgram (Program.ask .now fun now => .done (c.stampsAt caller now))

/-- The version that a stored document tells. -/
def knownVersion (d : Document) : Option Int64 :=
  c.schema.versionName?.bind fun field =>
    ((d.value? field).bind Value.number?).map fun v => Int64.ofInt v.toInt64

/-- An update that counts as one more write. -/
def withVersion (u : Update) : Update :=
  match c.schema.versionName? with
  | some field => u.inc field 1
  | none => u

/-- The filter for an entity that is still as it was loaded, and whether it tells versions
apart. -/
def unchangedSince (id : Uuid) (version : Option Int64) : Filter × Bool :=
  match c.schema.versionName?, version with
  | some field, some v => (.and [.hasId id, .eq field (.int64 v)], true)
  | _, _ => (.hasId id, false)

/-- Changes as an update. -/
def updateOf (changes : Changes) : Update := { sets := changes }

/-- Changes as an update that carries the stamps. -/
def stampedUpdate (changes : Changes) : OperationM Update := do
  let stamps ← c.stamps caller
  return { sets := changes ++ stamps }

/-- **Writes an update of an entity** that must not have changed since it had the version. -/
def writeUpdate (id : Uuid) (version : Option Int64) (update : Update) (place : String) :
    OperationM Unit := do
  let (filter, versioned) := c.unchangedSince id version
  let matched ← OperationM.inPlace place do
    StoreM.check
    StoreM.updateFirst filter (c.withVersion update) c.name
  if matched = 0 then
    if versioned then throw (.concurrentModification id.text)
    else throw (.missing c.name id)

/-- **Writes changes** with the stamps of the caller. -/
def writeStamped (id : Uuid) (version : Option Int64) (changes : Changes) (place : String) :
    OperationM Unit := do
  let update ← c.stampedUpdate caller changes
  c.writeUpdate id version update place

/-! ### Unique names -/

/-- The name in a document that has to be unique, if there is one. -/
def nameToKeep? (d : Document) : Option (String × String) := do
  let field ← c.schema.uniqueName
  let text ← (d.value? field).bind Value.string?
  let name := Text.trim text
  if name.isEmpty then none else some (field, name)

/-- **Refuses a name that another entity has**, case not counting. -/
def refuseTakenName (d : Document) (id : Uuid) (place : String) : OperationM Unit :=
  match c.nameToKeep? d with
  | none => pure ()
  | some (field, name) => do
    let filter := Filter.and [.eqIgnoreCase field (.string name), .ne "id" (Value.ofUuid id)]
    let taken ← OperationM.inPlace place
      (StoreM.guarded (StoreM.count (some filter) c.name))
    if 0 < taken then throw (.duplicateName name)

end Collection

end Registrar
