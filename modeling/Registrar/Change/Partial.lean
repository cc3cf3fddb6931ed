import Registrar.Change.Difference
import Registrar.Text.Blank
import Registrar.Text.Segments

/-!
# Partial updates

A **delta** names the properties and paths of an entity that a caller changed, and a patch carries
their new values. The plan turns this into the changes to write:

* a path into a list or a map writes the whole list or map, once;
* a dotted path into an object writes one leaf of it, if the stored entity holds an object there,
  and the whole object otherwise;
* fields derived from a written field are written with it.

Names of the id, of unknown fields and of fields that the engine writes are passed over.

* `Delta.roots`: the first segments of what a delta names.
* `Schema.plan`: the changes to write.
-/

namespace Registrar

/-- **A partial update**: which properties and paths of which entity, and an entity that carries
the new values. -/
structure Delta (E : Type) where
  id : Uuid
  properties : List String := []
  paths : List String := []
  data : E

namespace Delta

variable {E : Type}

/-- Names a property. -/
def property (d : Delta E) (name : String) : Delta E :=
  { d with properties := d.properties ++ [name] }

/-- Names a path, and its first segment as a property unless it is one already. -/
def path (d : Delta E) (path : String) : Delta E :=
  let root := Text.headSegment path
  { d with
    properties := if root ∈ d.properties then d.properties else d.properties ++ [root]
    paths := d.paths ++ [path] }

def isEmpty (d : Delta E) : Bool := d.properties.isEmpty && d.paths.isEmpty

/-- **The first segments** of what the delta names, each once. -/
def roots (d : Delta E) : List String :=
  ((d.properties ++ d.paths).map Text.headSegment).foldl
    (fun roots r => if r ∈ roots then roots else roots ++ [r]) []

end Delta

namespace Schema

/-- The changes planned so far, and the fields that are written as a whole. -/
structure PlanState where
  changes : Changes
  replaced : List String

/-- The field with the name, unless the engine writes it itself. -/
def writable? (s : Schema) (name : String) : Option Field :=
  (s.field? name).filter fun f => !f.isInternal

/-- Plans a field as a whole, once. -/
def PlanState.replace (st : PlanState) (root : String) (patch : Document) : PlanState :=
  if root ∈ st.replaced then st
  else ⟨st.changes.put root (patch.valueOrNull root), root :: st.replaced⟩

/-- Plans one leaf of an object; a leaf that the patch does not hold becomes null. -/
def PlanState.setLeaf (st : PlanState) (root leaf : String) (patch : Document) : PlanState :=
  let value := ((patch.value? root).bind Value.document?).bind (Document.value? · leaf)
  { st with changes := st.changes.put (root ++ "." ++ leaf) (value.getD .null) }

/-- The name of a leaf: that of the declared child, or the one given. -/
def leafName (root : Field) (name : String) : String :=
  ((root.child? name).map Field.name).getD name

/-- Whether leaves of a field may be written by themselves: the stored entity holds an object
there. Without a stored entity they may. -/
def holdsObject (existing : Option Document) (root : String) : Bool :=
  match existing with
  | none => true
  | some d => ((d.value? root).bind Value.document?).isSome

/-- **Plans one name.** -/
def planName (s : Schema) (patch : Document) (existing : Option Document) (st : PlanState)
    (name : String) : PlanState :=
  let trimmed := Text.trim name
  let (rootName, rest) := match Text.cutPath trimmed with
    | some (h, t) => (h, some t)
    | none => (trimmed, none)
  match s.writable? rootName with
  | none => st
  | some root =>
    match rest with
    | none => st.replace root.name patch
    | some rest =>
      if root.name ∈ st.replaced then st
      else if !root.kind.isCollection && holdsObject existing root.name then
        st.setLeaf root.name (leafName root (Text.headSegment rest)) patch
      else st.replace root.name patch

/-- The fields into which a path leads. -/
def pathRoots (s : Schema) (paths : List String) : List String :=
  paths.filterMap fun p => (s.field? (Text.headSegment (Text.trim p))).map Field.name

/-- The properties into which no path leads. -/
def uncovered (s : Schema) (properties paths : List String) : List String :=
  properties.filter fun p =>
    match s.field? (Text.trim p) with
    | some f => f.name ∉ s.pathRoots paths
    | none => true

/-- Adds the fields derived from the changed ones. -/
def withDerived (s : Schema) (patch : Document) (changes : Changes) : Changes :=
  ((changes.keys.map Text.headSegment).flatMap s.computedFrom).foldl
    (fun c f => c.put f.name (patch.valueOrNull f.name)) changes

/-- **The changes to write** for the named properties and paths. -/
def plan (s : Schema) (properties paths : List String) (patch : Document)
    (existing : Option Document) : Changes :=
  let names := paths ++ s.uncovered properties paths
  s.withDerived patch (names.foldl (s.planName patch existing) ⟨[], []⟩).changes

end Schema

end Registrar
