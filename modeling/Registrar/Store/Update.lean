import Registrar.Text.Segments
import Registrar.Value.Basic

/-!
# Updates in place

An **update** sets values at paths and adds to counters at paths. A dotted path leads through
embedded documents; where there is none on the way, one is made. A counter is read as a number,
zero when there is none, and written back as a 64-bit integer.

* `Document.readPath?`, `Document.writePath`: reading and writing at a path.
* `Update.apply`: the updated document.
-/

namespace Registrar

/-- **An update**: values to set and counters to increase, each by path. -/
structure Update where
  sets : List (String × Value) := []
  incs : List (String × Int64) := []

namespace Update

def isEmpty (u : Update) : Bool := u.sets.isEmpty && u.incs.isEmpty

def set (u : Update) (path : String) (value : Value) : Update :=
  { u with sets := u.sets ++ [(path, value)] }

def inc (u : Update) (path : String) (amount : Int64) : Update :=
  { u with incs := u.incs ++ [(path, amount)] }

/-- The paths that an update writes. -/
def paths (u : Update) : List String := u.sets.map Prod.fst ++ u.incs.map Prod.fst

end Update

namespace Document

/-- The value at the end of a way through embedded documents. -/
def readAt? : List String → Document → Option Value
  | [], _ => none
  | [k], d => value? d k
  | k :: r, d =>
    match value? d k with
    | some (.document inner) => readAt? r inner
    | _ => none

/-- Writes a value at the end of a way, making embedded documents where there are none. -/
def writeAt : List String → Value → Document → Document
  | [], _, d => d
  | [k], v, d => put d k v
  | k :: r, v, d =>
    let inner := match value? d k with
      | some (.document inner) => inner
      | _ => []
    put d k (.document (writeAt r v inner))

/-- **The value at a dotted path.** -/
def readPath? (d : Document) (path : String) : Option Value := readAt? (Text.segments path) d

/-- **Writes a value at a dotted path.** -/
def writePath (d : Document) (path : String) (v : Value) : Document :=
  writeAt (Text.segments path) v d

/-- The counter at a path. -/
def counter (d : Document) (path : String) : Int64 :=
  Int64.ofInt ((((d.readPath? path).bind Value.number?).map Double.toInt64).getD 0)

/-- Adds to the counter at a path. -/
def addPath (d : Document) (path : String) (amount : Int64) : Document :=
  d.writePath path (.int64 (d.counter path + amount))

end Document

/-- **The updated document**: values first, then counters. -/
def Update.apply (u : Update) (d : Document) : Document :=
  u.incs.foldl (fun d i => d.addPath i.1 i.2) (u.sets.foldl (fun d s => d.writePath s.1 s.2) d)

end Registrar
