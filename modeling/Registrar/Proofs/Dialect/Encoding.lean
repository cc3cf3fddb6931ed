import Registrar.Dialect.Condition
import Registrar.Proofs.Dialect.Stored
import Registrar.Proofs.Store.Writing

/-!
# What is stored and what is sought

Inserting, updating and searching write the same field under the same key. Inserting and updating
escape the keys inside its value too, while a condition holds its operand as it is. So a condition
asks for what was stored exactly if no key in the operand has a mark.

* `LastUnder`: the value that counts for a key.
* `Value.HasPlainKeys`: no key at any depth has a mark.
* `escapeValue_eq_self_iff`: **a value is stored as it is** if it has plain keys.
* `encoded_alike_iff`: **an operand is what was stored** if it has plain keys.
-/

namespace Registrar

namespace Dialect

open Document

/-- **The value that counts** among fields that are written one after the other: it is the value of
a field with the name, and no later field is written under the same key. -/
def LastUnder (encode : String → String) (fields : List (String × Value)) (name : String)
    (v : Value) : Prop :=
  ∃ before after, fields = before ++ (name, v) :: after ∧
    ∀ f ∈ after, encode f.1 ≠ encode name

/-- **No key has a mark**, at any depth of the value. -/
def HasPlainKeys (v : Value) : Prop := ∀ key ∈ v.allKeys, Plain key.toList

theorem escapePath_of_dotless {name : String} (h : '.' ∉ name.toList) :
    escapePath name = escapeKey name := by
  rw [escapePath, Text.segments_of_dotless h]
  rfl

theorem mapKeysFields_eq_map (f : String → String) (fields : List (String × Value)) :
    mapKeysFields f fields = fields.map fun p => (f p.1, mapKeys f p.2) := by
  induction fields with
  | nil => rfl
  | cons p r ih => rw [mapKeysFields, ih, List.map_cons]

/-- **The value that counts is found**, encoded. -/
theorem value?_ofFields_of_last {encode : String → String} {fields : List (String × Value)}
    {name : String} {v : Value} (h : LastUnder encode fields name v) (g : Value → Value) :
    (ofFields (fields.map fun f => (encode f.1, g f.2))).value? (encode name) = some (g v) := by
  obtain ⟨before, after, rfl, hafter⟩ := h
  have hlater : encode name ∉ keys (after.map fun f => (encode f.1, g f.2)) := by
    simp only [keys, List.map_map, List.mem_map, not_exists, not_and]
    exact hafter
  rw [List.map_append, List.map_cons, ofFields_eq_putAll, putAll_append, putAll_cons,
    value?_putAll_of_notMem hlater, value?_put_self]

/-- **A value is stored as it is** exactly if it has plain keys. -/
theorem escapeValue_eq_self_iff {v : Value} (hd : v.KeysDistinct) :
    escapeValue v = v ↔ HasPlainKeys v := by
  rw [escapeValue, mapKeys_eq_self_iff hd]
  simp only [escapeKey_eq_self_iff, HasPlainKeys]

theorem map_escapeValue_eq_self_iff {vs : List Value} (hd : ∀ v ∈ vs, v.KeysDistinct) :
    vs.map escapeValue = vs ↔ ∀ v ∈ vs, HasPlainKeys v := by
  induction vs with
  | nil => simp
  | cons v r ih =>
    obtain ⟨hv, hr⟩ := List.forall_mem_cons.mp hd
    rw [List.map_cons, List.cons.injEq, escapeValue_eq_self_iff hv, ih hr, List.forall_mem_cons]

/-! ### The three ways of writing a field -/

/-- **Inserting** stores the escaped value under the escaped name; only the server's own key is
taken. -/
theorem value?_storedDocument {d : Document} {name : String} {v : Value}
    (hd : LastUnder escapeKey d name v) (id : Uuid) :
    (storedDocument id d).value? (escapeKey name) =
      some (if name = "_id" then .ofUuid id else escapeValue v) := by
  rw [storedDocument]
  split
  · rename_i heq
    rw [escapeKey_eq_id_iff.mpr heq, value?_put_self]
  · rename_i hne
    rw [value?_put_of_ne _ _ (fun heq => hne (escapeKey_eq_id_iff.mp heq)), escapeDocument,
      mapKeysFields_eq_map]
    exact value?_ofFields_of_last hd escapeValue

/-- **Updating** sets the same value under the same key. -/
theorem value?_setPart {u : Update} {name : String} {v : Value} (hname : '.' ∉ name.toList)
    (hu : LastUnder escapePath u.sets name v) :
    (setPart u).value? (escapeKey name) = some (escapeValue v) := by
  rw [← escapePath_of_dotless hname, setPart]
  exact value?_ofFields_of_last hu escapeValue

/-- **Searching** names the same key, and holds the operand as it is. -/
theorem condition_compare {name : String} (hname : '.' ∉ name.toList) {test : Comparison}
    {v : Value} {d : Document} (h : fieldCondition name test v = .ok d) :
    condition (.compare name test v) = .ok [(escapeKey name, .document d)] := by
  rw [condition, h, escapePath_of_dotless hname]
  rfl

/-- **What is sought is what was stored** exactly if it has plain keys. A name without a dot is
stored, set and sought under one key, and what is stored is what is set; the operands of the
conditions are escaped like it if and only if there is nothing to escape in them. -/
theorem encoded_alike_iff {name : String} (hname : '.' ∉ name.toList) {v : Value}
    (hv : v.KeysDistinct) {vs : List Value} (hvs : ∀ w ∈ vs, w.KeysDistinct) {d : Document}
    (hd : LastUnder escapeKey d name v) {u : Update} (hu : LastUnder escapePath u.sets name v)
    (id : Uuid) :
    (storedDocument id d).value? (escapeKey name) =
        some (if name = "_id" then .ofUuid id else escapeValue v) ∧
      (setPart u).value? (escapeKey name) = some (escapeValue v) ∧
      (condition (.eq name v) = .ok [(escapeKey name, .document [("$eq", escapeValue v)])] ↔
        HasPlainKeys v) ∧
      (condition (.ne name v) = .ok [(escapeKey name, .document [("$ne", escapeValue v)])] ↔
        HasPlainKeys v) ∧
      (condition (.anyOf name vs) =
          .ok [(escapeKey name, .document [("$in", .array (vs.map escapeValue))])] ↔
        ∀ w ∈ vs, HasPlainKeys w) ∧
      (condition (.noneOf name vs) =
          .ok [(escapeKey name, .document [("$nin", .array (vs.map escapeValue))])] ↔
        ∀ w ∈ vs, HasPlainKeys w) := by
  refine ⟨value?_storedDocument hd id, value?_setPart hname hu, ?_, ?_, ?_, ?_⟩
  · rw [Filter.eq, condition_compare hname rfl, ← escapeValue_eq_self_iff hv]
    simp [eq_comm]
  · rw [Filter.ne, condition_compare hname rfl, ← escapeValue_eq_self_iff hv]
    simp [eq_comm]
  · rw [Filter.anyOf, condition_compare hname rfl, ← map_escapeValue_eq_self_iff hvs]
    simp [operandList, eq_comm]
  · rw [Filter.noneOf, condition_compare hname rfl, ← map_escapeValue_eq_self_iff hvs]
    simp [operandList, eq_comm]

/-- An object with a dotted key. -/
def dotted : Value := .document [("a.b", .string "x")]

/-- **What was stored is not sought**: the key inside is escaped in the one and not in the other. -/
theorem dotted_missed :
    (storedDocument .nil [("attributes", dotted)]).value? "attributes" =
        some (.document [("a__dot__b", .string "x")]) ∧
      condition (.eq "attributes" dotted) ≠
        .ok [("attributes", .document [("$eq", .document [("a__dot__b", .string "x")])])] := by
  have hname : escapeKey "attributes" = "attributes" := by decide
  have hvalue : escapeValue dotted = .document [("a__dot__b", .string "x")] := by
    have hkey : escapeKey "a.b" = "a__dot__b" := by decide
    simp [dotted, escapeValue, mapKeys, mapKeysFields, hkey, ofFields, put]
  have hdistinct : dotted.KeysDistinct := by
    simp [dotted, Value.KeysDistinct, Value.FieldsDistinct, keys]
  have hlast : ∀ encode, LastUnder encode [("attributes", dotted)] "attributes" dotted :=
    fun _ => ⟨[], [], rfl, by simp⟩
  have hset : LastUnder escapePath (Update.set {} "attributes" dotted).sets "attributes" dotted :=
    hlast escapePath
  have hlist : ∀ w ∈ [dotted], w.KeysDistinct := by simpa using hdistinct
  have halike := encoded_alike_iff (by decide) hdistinct hlist (hlast escapeKey) hset .nil
  have hstored := halike.1
  have hsought := halike.2.2.1
  rw [hname, hvalue] at hstored hsought
  refine ⟨hstored, fun h => ?_⟩
  have hplain := hsought.mp h "a.b" (by simp [dotted, Value.allKeys, Value.fieldsKeys])
  exact absurd hplain.dot (by decide)

end Dialect

end Registrar
