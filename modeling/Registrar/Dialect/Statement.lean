import Registrar.Dialect.Key
import Registrar.Store.Query
import Registrar.Store.Update

/-!
# Documents, sorts and updates for MongoDB

A document is stored with escaped keys and the server's own key `_id`, which is dropped again when
it is read. Sort keys and updates are documents of escaped paths.

* `storedDocument`, `loadedDocument`: a document before and after storage.
* `sortStatement?`: the sort keys of a query.
* `updateStatement`: an update.
-/

namespace Registrar.Dialect

/-- **The document as it is stored.** -/
def storedDocument (id : Uuid) (d : Document) : Document :=
  (escapeDocument d).put "_id" (Value.ofUuid id)

/-- **The document as it is read.** -/
def loadedDocument (d : Document) : Document := (unescapeDocument d).without "_id"

/-- **The sort keys** as a document; none when there are none. -/
def sortStatement? (keys : List SortKey) : Option Document :=
  if keys.isEmpty then none
  else some (Document.ofFields (keys.map fun k =>
    (escapePath k.path, .int32 (match k.direction with
      | .asc => 1
      | .desc => -1))))

/-- The values that an update sets, by escaped path. -/
def setPart (u : Update) : Document :=
  Document.ofFields (u.sets.map fun s => (escapePath s.1, escapeValue s.2))

/-- The amounts that an update adds, by escaped path. -/
def incPart (u : Update) : Document :=
  Document.ofFields (u.incs.map fun i => (escapePath i.1, .int64 i.2))

/-- **An update** in the server's language. -/
def updateStatement (u : Update) : Document :=
  (if u.sets.isEmpty then [] else [("$set", .document (setPart u))]) ++
    (if u.incs.isEmpty then [] else [("$inc", .document (incPart u))])

end Registrar.Dialect
