import Registrar.Schema.Basic
import Registrar.Value.Equality

/-!
# Changes between two versions of an entity

**Changes** are fields with their new values, each field once, in the order in which they were
first named. They are a document of their own, whose keys may be dotted paths. The difference of
two versions goes through the declared fields, so nothing else is ever written.

* `Schema.diff`: the changes from a stored version to a proposed one.
-/

namespace Registrar

/-- **Fields and their new values.** -/
abbrev Changes := Document

/-- Whether a field takes part in a difference. Ids of other entities do so only when asked for. -/
def FieldRole.isDiffed (dependencies : Bool) : FieldRole → Bool
  | .data | .derived _ => true
  | .dependency => dependencies
  | .id | .navigation | .updatedAt | .updatedBy | .version => false

namespace Schema

/-- The fields that take part in a difference. -/
def diffedFields (s : Schema) (dependencies : Bool) : List Field :=
  s.fields.filter fun f => f.role.isDiffed dependencies

/-- **The changes from one version to another.** -/
def diff (s : Schema) (dependencies : Bool) (existing proposed : Document) : Changes :=
  (s.diffedFields dependencies).foldl (fun changes f =>
    let new := Document.valueOrNull proposed f.name
    if (Document.valueOrNull existing f.name).agrees new then changes
    else Document.put changes f.name new) []

end Schema

end Registrar
