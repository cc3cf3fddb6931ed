import Registrar.Text.Replace
import Registrar.Text.Segments
import Registrar.Value.Basic

/-!
# Keys in a MongoDB collection

A server gives a meaning to dots, dollar signs and null characters in keys, so these are escaped in
the keys of stored documents at any depth. Values stay as they are. In a path the dots between the
segments keep their meaning, and each segment is escaped like a key.

* `escapeKey`, `unescapeKey`: a key before and after.
* `escapeDocument`, `unescapeDocument`: the keys of a document at any depth.
* `escapePath`: a path to escaped keys.
-/

namespace Registrar.Dialect

/-- The escaped form of a character in a key. -/
def escapeChar (c : Char) : List Char :=
  if c = '.' then "__dot__".toList
  else if c = '$' then "__dollar__".toList
  else if c = Char.ofNat 0 then "__null__".toList
  else [c]

/-- The escaped form of the characters of a key. -/
def escapeChars (cs : List Char) : List Char := cs.flatMap escapeChar

/-- **The key under which a field is stored.** -/
def escapeKey (key : String) : String := String.ofList (escapeChars key.toList)

/-- The escaped forms back to their characters, null characters first. -/
def unescapeChars (cs : List Char) : List Char :=
  Text.replaceAll "__dot__".toList ['.']
    (Text.replaceAll "__dollar__".toList ['$']
      (Text.replaceAll "__null__".toList [Char.ofNat 0] cs))

/-- **The key of a stored field.** -/
def unescapeKey (key : String) : String := String.ofList (unescapeChars key.toList)

/-- **A path to escaped keys.** -/
def escapePath (path : String) : String :=
  ".".intercalate ((Text.segments path).map escapeKey)

mutual

/-- Changes every key inside a value. -/
def mapKeys (f : String → String) : Value → Value
  | .array items => .array (mapKeysItems f items)
  | .document fields => .document (Document.ofFields (mapKeysFields f fields))
  | v => v

def mapKeysItems (f : String → String) : List Value → List Value
  | [] => []
  | v :: r => mapKeys f v :: mapKeysItems f r

def mapKeysFields (f : String → String) : List (String × Value) → List (String × Value)
  | [] => []
  | (k, v) :: r => (f k, mapKeys f v) :: mapKeysFields f r

end

/-- A value with escaped keys. -/
def escapeValue (v : Value) : Value := mapKeys escapeKey v

/-- **A document with escaped keys.** Of fields whose keys become equal the last one stays. -/
def escapeDocument (d : Document) : Document := Document.ofFields (mapKeysFields escapeKey d)

/-- **A document with its keys back.** -/
def unescapeDocument (d : Document) : Document := Document.ofFields (mapKeysFields unescapeKey d)

end Registrar.Dialect
