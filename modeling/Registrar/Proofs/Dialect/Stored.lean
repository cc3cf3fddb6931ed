import Registrar.Dialect.Statement
import Registrar.Proofs.Dialect.Keys
import Registrar.Proofs.Dialect.MappedKeys

/-!
# Stored documents are read back

A document gets the server's own key when it is stored, and loses it when it is read. In between
its keys are escaped and read again at every depth, so the document comes back exactly if all its
keys do. Keys that come back are stored apart; keys that do not may be stored as one, and then one
of their values is lost.

* `loaded_stored`: the server's own key leaves no trace.
* `loaded_stored_iff`: **a document comes back exactly if its keys are faithful**.
-/

namespace Registrar.Dialect

open Document

/-! ### The server's own key -/

theorem escapeKey_eq_id_iff {key : String} : escapeKey key = "_id" ↔ key = "_id" := by
  constructor
  · intro h
    have hchars : escapeChars key.toList = "_id".toList := by
      rw [← h, escapeKey, String.toList_ofList]
    have hplain : Plain key.toList := plain_of_length_lt (by rw [hchars]; decide)
    rw [← h, escapeKey_eq_self_iff.mpr hplain]
  · rintro rfl
    decide

theorem unescapeKey_eq_id_iff {key : String} (h : Plain key.toList) :
    unescapeKey key = "_id" ↔ key = "_id" := by
  constructor
  · intro heq
    rw [← escapeKey_unescapeKey h, heq]
    decide
  · rintro rfl
    decide

theorem mem_keys_escapeDocument {d : Document} {key : String} :
    key ∈ (escapeDocument d).keys ↔ ∃ k ∈ d.keys, escapeKey k = key := by
  rw [escapeDocument, mem_keys_ofFields, keys_mapKeysFields, List.mem_map]

theorem mem_keys_unescapeDocument {d : Document} {key : String} :
    key ∈ (unescapeDocument d).keys ↔ ∃ k ∈ d.keys, unescapeKey k = key := by
  rw [unescapeDocument, mem_keys_ofFields, keys_mapKeysFields, List.mem_map]

/-- **The server's own key leaves no trace.** -/
theorem loaded_stored {d : Document} (hid : "_id" ∉ d.keys) (id : Uuid) :
    loadedDocument (storedDocument id d) = unescapeDocument (escapeDocument d) := by
  have hescaped : "_id" ∉ (escapeDocument d).keys := by
    rw [mem_keys_escapeDocument]
    rintro ⟨key, hkey, heq⟩
    exact hid (escapeKey_eq_id_iff.mp heq ▸ hkey)
  have hread : "_id" ∉ (unescapeDocument (escapeDocument d)).keys := by
    rw [mem_keys_unescapeDocument]
    rintro ⟨key, hkey, heq⟩
    obtain ⟨k, -, rfl⟩ := mem_keys_escapeDocument.mp hkey
    exact hescaped ((unescapeKey_eq_id_iff (plain_escapeKey k)).mp heq ▸ hkey)
  have hself : unescapeKey "_id" = "_id" := by decide
  have hlast : unescapeDocument (escapeDocument d ++ [("_id", Value.ofUuid id)]) =
      (unescapeDocument (escapeDocument d)).put "_id" (Value.ofUuid id) := by
    rw [unescapeDocument, mapKeysFields_append, ofFields_eq_putAll, putAll_append]
    simp only [mapKeysFields, hself]
    rfl
  rw [loadedDocument, storedDocument, put_of_notMem hescaped, hlast, without_put_of_notMem hread]

/-! ### Documents that come back -/

/-- **A document comes back exactly if its keys are faithful**, whichever id it is stored under.
No two keys of a document that comes back are stored as one. -/
theorem loaded_stored_iff {d : Document} (hd : (Value.document d).KeysDistinct)
    (hid : "_id" ∉ d.keys) (id : Uuid) :
    (loadedDocument (storedDocument id d) = d ↔
        ∀ key ∈ (Value.document d).allKeys, Faithful key) ∧
      (loadedDocument (storedDocument id d) = d →
        ∀ key ∈ (Value.document d).allKeys, ∀ other ∈ (Value.document d).allKeys,
          escapeKey key = escapeKey other → key = other) := by
  have hback := mapKeys_mapKeys_iff (f := escapeKey) (g := unescapeKey) hd
  rw [mapKeys, mapKeys, Value.document.injEq] at hback
  have hfaithful : loadedDocument (storedDocument id d) = d ↔
      ∀ key ∈ (Value.document d).allKeys, Faithful key := by
    rw [loaded_stored hid]
    simp only [← unescapeKey_escapeKey_iff]
    exact hback
  refine ⟨hfaithful, fun h key hkey other hother => ?_⟩
  have hall := hfaithful.mp h
  exact (escapeKey_inj (hall key hkey) (hall other hother)).mp

/-- A price in a currency that has a sign. -/
def dollarPrice : Document := [("price.dollar.amount", .int32 5)]

/-- Keys that are stored as one. -/
def twins : Document := [("__dot.", .int32 1), (".dot__", .int32 2)]

/-- **The price is lost**, and one of the twins. -/
theorem dollarPrice_lost :
    loadedDocument (storedDocument .nil dollarPrice) ≠ dollarPrice ∧
      loadedDocument (storedDocument .nil twins) ≠ twins := by
  have hprice : (Value.document dollarPrice).KeysDistinct := by
    simp [Value.KeysDistinct, Value.FieldsDistinct, dollarPrice, keys]
  have htwins : (Value.document twins).KeysDistinct := by
    simp [Value.KeysDistinct, Value.FieldsDistinct, twins, keys]
  constructor
  · intro h
    have hall := (loaded_stored_iff hprice (by decide) .nil).1.mp h
    exact absurd (hall "price.dollar.amount" (by decide)) (by decide +kernel)
  · intro h
    have hapart := (loaded_stored_iff htwins (by decide) .nil).2 h
    exact absurd (hapart "__dot." (by decide) ".dot__" (by decide) (by decide +kernel))
      (by decide)

end Registrar.Dialect
