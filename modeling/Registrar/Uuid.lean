/-!
# Entity ids

Entities are known by **uuids**, sixteen bytes each. A uuid is written as 32 small hexadecimal
digits in five groups. It is read from digits in either case, with all four hyphens or with none,
and the hyphenated form also between braces or after `urn:uuid:`.

* `Uuid.text`: the written form.
* `Uuid.parse?`: reads every accepted form.
* `Uuid.compare`: the order of the bytes, the first one first.
-/

namespace Registrar

/-- The order of byte strings, the first difference deciding and a beginning standing before the
longer string. -/
def compareBytes : List UInt8 → List UInt8 → Ordering
  | [], [] => .eq
  | [], _ :: _ => .lt
  | _ :: _, [] => .gt
  | a :: as, b :: bs => (compare a b).then (compareBytes as bs)

/-- **The id of an entity.** -/
structure Uuid where
  bytes : List UInt8
  size_eq : bytes.length = 16 := by decide
  deriving DecidableEq

namespace Uuid

/-- The id of no entity, sixteen zero bytes. -/
def nil : Uuid where
  bytes := List.replicate 16 0

def isNil (u : Uuid) : Bool := u == nil

/-- The uuid with these bytes, when there are sixteen. -/
def ofBytes? (bytes : List UInt8) : Option Uuid :=
  if h : bytes.length = 16 then some ⟨bytes, h⟩ else none

/-- **The order of uuids.** -/
def compare (a b : Uuid) : Ordering := compareBytes a.bytes b.bytes

/-! ### Text -/

/-- The two digits of a byte. -/
def hexByte (b : UInt8) : List Char :=
  [Nat.digitChar (b.toNat / 16), Nat.digitChar (b.toNat % 16)]

def hexDigits (bytes : List UInt8) : List Char := bytes.flatMap hexByte

/-- **The written form**, in groups of 8, 4, 4, 4 and 12 digits. -/
def text (u : Uuid) : String :=
  let ds := hexDigits u.bytes
  let group (start count : Nat) := String.ofList ((ds.drop start).take count)
  "-".intercalate [group 0 8, group 8 4, group 12 4, group 16 4, group 20 12]

def hexValue? (c : Char) : Option Nat :=
  if '0' ≤ c ∧ c ≤ '9' then some (c.toNat - 48)
  else if 'a' ≤ c ∧ c ≤ 'f' then some (c.toNat - 87)
  else if 'A' ≤ c ∧ c ≤ 'F' then some (c.toNat - 55)
  else none

/-- The bytes that pairs of hexadecimal digits denote. -/
def bytesOfHex? : List Char → Option (List UInt8)
  | [] => some []
  | [_] => none
  | a :: b :: cs => do
    let high ← hexValue? a
    let low ← hexValue? b
    let rest ← bytesOfHex? cs
    return UInt8.ofNat (16 * high + low) :: rest

/-- Thirty-two digits without hyphens. -/
def parseSimple? (cs : List Char) : Option Uuid :=
  if cs.length = 32 then (bytesOfHex? cs).bind ofBytes? else none

/-- Five groups with four hyphens, at their places. -/
def parseHyphenated? (cs : List Char) : Option Uuid :=
  let at? (i : Nat) : Bool := cs[i]? == some '-'
  if cs.length = 36 ∧ at? 8 ∧ at? 13 ∧ at? 18 ∧ at? 23 then
    parseSimple? (cs.take 8 ++ (cs.drop 9).take 4 ++ (cs.drop 14).take 4 ++
      (cs.drop 19).take 4 ++ cs.drop 24)
  else none

/-- **Reads a uuid** in any of its forms. -/
def parse? (s : String) : Option Uuid :=
  let cs := s.toList
  if cs.length = 32 then parseSimple? cs
  else if cs.length = 36 then parseHyphenated? cs
  else if cs.length = 38 ∧ cs.head? = some '{' ∧ cs.getLast? = some '}' then
    parseHyphenated? ((cs.drop 1).take 36)
  else if cs.length = 45 ∧ (cs.take 9).map Char.toLower = "urn:uuid:".toList then
    parseHyphenated? (cs.drop 9)
  else none

/-! ### Laws -/

theorem ofBytes?_bytes (u : Uuid) : ofBytes? u.bytes = some u := by
  simp [ofBytes?, u.size_eq]

theorem bytes_of_ofBytes? {bytes : List UInt8} {u : Uuid} (h : ofBytes? bytes = some u) :
    u.bytes = bytes := by
  unfold ofBytes? at h
  split at h
  · cases h; rfl
  · cases h

end Uuid

end Registrar
