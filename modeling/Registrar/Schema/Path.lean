import Registrar.Schema.Basic
import Registrar.Text.Segments

/-!
# Paths into an entity

A **path** names a field of an entity, or with dots a field inside the object that a field holds.
Resolving it replaces every segment that matches a declared name by that name. Below a field
without declared children the segments are free: they stay as they are and name texts.

* `Schema.resolve?`: the canonical path, its first field, and the kind of what it names.
-/

namespace Registrar

/-- **A resolved path.** -/
structure CanonicalPath where
  path : String
  root : Field
  kind : FieldKind

namespace Schema

/-- Where a walk along a path stands: the last declared field, the kind of the last segment, and
the canonical segments after the first. -/
structure PathWalk where
  leaf : Field
  kind : FieldKind
  passed : List String

/-- One segment further: to a declared child, or freely below a field without children. -/
def PathWalk.step? (w : PathWalk) (segment : String) : Option PathWalk :=
  if segment.isEmpty then none
  else
    match w.leaf.child? segment with
    | some child => some ⟨child, child.kind, w.passed ++ [child.name]⟩
    | none =>
      if w.leaf.children.isEmpty then some ⟨w.leaf, .string, w.passed ++ [segment]⟩ else none

/-- **Resolves a path** to its canonical spelling. -/
def resolve? (s : Schema) (path : String) : Option CanonicalPath :=
  match Text.segments path with
  | [] => none
  | first :: rest => do
    let root ← s.field? first
    let walk ← rest.foldlM PathWalk.step? ⟨root, root.kind, []⟩
    return ⟨".".intercalate (root.name :: walk.passed), root, walk.kind⟩

end Schema

end Registrar
