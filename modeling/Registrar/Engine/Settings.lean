import Registrar.Entity.Reading

/-!
# Settings

The switches of the engine, shared by all collections. A switch that is not set has its default.

* `Settings.read?`: reads settings in exchange form.
-/

namespace Registrar

/-- **How the engine behaves.** -/
structure Settings where
  /-- Refuse a name that another entity has. -/
  validateUniqueNames : Bool := true
  /-- Prune the references of what is submitted before it is compared and written. -/
  lookupOnUpdate : Bool := true
  /-- Write back what was pruned while reading. -/
  persistPrunedReferences : Bool := true
  /-- Whether updates write references, unless the caller says otherwise. -/
  includeDependencyFields : Bool := false
  deriving DecidableEq

namespace Settings

/-- **Reads settings.** -/
def read? : Reading.Reader Settings := fun v => do
  let d ← Reading.fields? ["validate_unique_names", "lookup_on_update",
    "persist_pruned_references", "include_dependency_fields"] v
  return {
    validateUniqueNames := ← Reading.optional d "validate_unique_names" true Reading.bool
    lookupOnUpdate := ← Reading.optional d "lookup_on_update" true Reading.bool
    persistPrunedReferences := ← Reading.optional d "persist_pruned_references" true Reading.bool
    includeDependencyFields :=
      ← Reading.optional d "include_dependency_fields" false Reading.bool }

/-- The record of settings. -/
def toDocument (c : Settings) : Document :=
  [("validate_unique_names", .bool c.validateUniqueNames),
   ("lookup_on_update", .bool c.lookupOnUpdate),
   ("persist_pruned_references", .bool c.persistPrunedReferences),
   ("include_dependency_fields", .bool c.includeDependencyFields)]

end Settings

end Registrar
