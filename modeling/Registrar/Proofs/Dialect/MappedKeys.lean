import Mathlib.Data.List.Nodup
import Registrar.Dialect.Key

/-!
# Changing the keys of values

A function of keys is applied at every depth of a value, in lists too. Documents whose keys become
equal are written over, so nothing is lost exactly if no key is: a document that comes back has all
its fields, hence its keys stayed apart in between, and came back one by one.

* `Value.allKeys`: the keys at every depth.
* `Value.KeysDistinct`: no document at any depth repeats a key.
* `Document.ofFields_of_length`: documents that are written without a loss.
* `mapKeys_eq_self_iff`: **a value stays the same** if all its keys do.
* `mapKeys_mapKeys_iff`: **a value comes back** if all its keys do.
-/

namespace Registrar

namespace Value

mutual

/-- **The keys at every depth** of a value. -/
def allKeys : Value → List String
  | .array items => itemsKeys items
  | .document fields => fieldsKeys fields
  | _ => []

def itemsKeys : List Value → List String
  | [] => []
  | v :: r => allKeys v ++ itemsKeys r

def fieldsKeys : List (String × Value) → List String
  | [] => []
  | (k, v) :: r => k :: (allKeys v ++ fieldsKeys r)

end

mutual

/-- **No document repeats a key**, at any depth of the value. -/
def KeysDistinct : Value → Prop
  | .array items => ItemsDistinct items
  | .document fields => (Document.keys fields).Nodup ∧ FieldsDistinct fields
  | _ => True

def ItemsDistinct : List Value → Prop
  | [] => True
  | v :: r => KeysDistinct v ∧ ItemsDistinct r

def FieldsDistinct : List (String × Value) → Prop
  | [] => True
  | (_, v) :: r => KeysDistinct v ∧ FieldsDistinct r

end

end Value

namespace Document

variable {d : Document} {key : String} {v : Value} {fields : List (String × Value)}

theorem keys_cons (f : String × Value) (d : Document) : keys (f :: d) = f.1 :: keys d := rfl

theorem keys_append (d d' : Document) : keys (d ++ d') = keys d ++ keys d' := List.map_append

theorem put_of_notMem (h : key ∉ d.keys) : d.put key v = d ++ [(key, v)] := by
  induction d with
  | nil => rfl
  | cons f r ih =>
    simp only [keys_cons, List.mem_cons, not_or] at h
    rw [put, if_neg (Ne.symm h.1), ih h.2, List.cons_append]

theorem keys_put_of_mem (h : key ∈ d.keys) : (d.put key v).keys = d.keys := by
  induction d with
  | nil => cases h
  | cons f r ih =>
    rw [put]
    split
    · rename_i heq
      rw [keys_cons, keys_cons, heq]
    · rename_i hne
      rw [keys_cons, ih ((List.mem_cons.mp h).resolve_left (Ne.symm hne)), keys_cons]

theorem mem_keys_put {other : String} :
    other ∈ (d.put key v).keys ↔ other = key ∨ other ∈ d.keys := by
  by_cases hkey : key ∈ d.keys
  · rw [keys_put_of_mem hkey]
    exact (or_iff_right_of_imp fun h => h ▸ hkey).symm
  · rw [put_of_notMem hkey, keys_append, List.mem_append, or_comm]
    exact or_congr_left List.mem_singleton

theorem nodup_keys_put (h : d.keys.Nodup) (key : String) (v : Value) :
    (d.put key v).keys.Nodup := by
  by_cases hkey : key ∈ d.keys
  · rwa [keys_put_of_mem hkey]
  · rw [put_of_notMem hkey, keys_append, List.nodup_append_comm]
    exact List.nodup_cons.mpr ⟨hkey, h⟩

theorem without_put_of_notMem (h : key ∉ d.keys) : (d.put key v).without key = d := by
  induction d with
  | nil => exact if_pos rfl
  | cons f r ih =>
    simp only [keys_cons, List.mem_cons, not_or] at h
    rw [put, if_neg (Ne.symm h.1), without, if_neg (Ne.symm h.1), ih h.2]

/-! ### Writing several fields -/

/-- A document with the fields written one after the other. -/
def putAll (d : Document) (fields : List (String × Value)) : Document :=
  fields.foldl (fun d f => put d f.1 f.2) d

theorem ofFields_eq_putAll (fields : List (String × Value)) : ofFields fields = putAll [] fields :=
  rfl

theorem putAll_cons (d : Document) (f : String × Value) (r : List (String × Value)) :
    putAll d (f :: r) = putAll (d.put f.1 f.2) r := rfl

theorem putAll_append (d : Document) (fields others : List (String × Value)) :
    putAll d (fields ++ others) = putAll (putAll d fields) others := List.foldl_append

theorem mem_keys_putAll : key ∈ (putAll d fields).keys ↔ key ∈ d.keys ∨ key ∈ keys fields := by
  induction fields generalizing d with
  | nil => simp [putAll, keys]
  | cons f r ih =>
    rw [putAll_cons, ih, mem_keys_put, keys_cons, List.mem_cons, or_assoc, or_left_comm]

theorem value?_putAll_of_notMem (h : key ∉ keys fields) :
    (putAll d fields).value? key = d.value? key := by
  induction fields generalizing d with
  | nil => rfl
  | cons f r ih =>
    simp only [keys_cons, List.mem_cons, not_or] at h
    rw [putAll_cons, ih h.2, value?_put_of_ne _ _ h.1]

theorem putAll_of_nodup (h : (d.keys ++ keys fields).Nodup) : putAll d fields = d ++ fields := by
  induction fields generalizing d with
  | nil => simp [putAll]
  | cons f r ih =>
    have hnew : f.1 ∉ d.keys := fun hmem =>
      (List.nodup_append.mp h).2.2 _ hmem _ List.mem_cons_self rfl
    rw [putAll_cons, put_of_notMem hnew, ih, List.append_assoc]
    · rfl
    · rw [keys_append, List.append_assoc]
      exact h

theorem length_put_le : (d.put key v).length ≤ d.length + 1 := by
  by_cases h : key ∈ d.keys
  · have := congrArg List.length (keys_put_of_mem (v := v) h)
    simp only [keys, List.length_map] at this
    omega
  · simp [put_of_notMem h]

theorem length_putAll_le : (putAll d fields).length ≤ d.length + fields.length := by
  induction fields generalizing d with
  | nil => simp [putAll]
  | cons f r ih =>
    have hstep : (d.put f.1 f.2).length ≤ d.length + 1 := length_put_le
    have hrest := ih (d := d.put f.1 f.2)
    rw [putAll_cons, List.length_cons]
    omega

/-- **Without a loss** the fields are appended. -/
theorem putAll_of_length (h : (putAll d fields).length = d.length + fields.length) :
    putAll d fields = d ++ fields := by
  induction fields generalizing d with
  | nil => simp [putAll]
  | cons f r ih =>
    rw [putAll_cons, List.length_cons] at h
    have hrest : (putAll (d.put f.1 f.2) r).length ≤ _ := length_putAll_le
    have hnew : f.1 ∉ d.keys := by
      intro hmem
      have := congrArg List.length (keys_put_of_mem (v := f.2) hmem)
      simp only [keys, List.length_map] at this
      omega
    rw [put_of_notMem hnew] at h
    rw [putAll_cons, put_of_notMem hnew, ih (by simp at h ⊢; omega), List.append_assoc]
    rfl

theorem mem_keys_ofFields : key ∈ (ofFields fields).keys ↔ key ∈ keys fields := by
  rw [ofFields_eq_putAll, mem_keys_putAll]
  simp [keys]

theorem ofFields_of_nodup (h : (keys fields).Nodup) : ofFields fields = fields :=
  putAll_of_nodup h

theorem length_ofFields_le (fields : List (String × Value)) :
    (ofFields fields).length ≤ fields.length := by
  have hle : (putAll [] fields).length ≤ _ := length_putAll_le
  rwa [List.length_nil, Nat.zero_add] at hle

theorem ofFields_of_length (h : (ofFields fields).length = fields.length) :
    ofFields fields = fields :=
  putAll_of_length (d := []) (by rw [List.length_nil, Nat.zero_add]; exact h)

end Document

namespace Dialect

open Value Document

variable {f g : String → String}

theorem length_mapKeysFields (fields : List (String × Value)) :
    (mapKeysFields f fields).length = fields.length := by
  induction fields with
  | nil => rfl
  | cons p r ih => rw [mapKeysFields, List.length_cons, ih, List.length_cons]

theorem keys_mapKeysFields (fields : List (String × Value)) :
    keys (mapKeysFields f fields) = (keys fields).map f := by
  induction fields with
  | nil => rfl
  | cons p r ih => rw [mapKeysFields, keys_cons, ih, keys_cons, List.map_cons]

theorem mapKeysFields_append (fields others : List (String × Value)) :
    mapKeysFields f (fields ++ others) = mapKeysFields f fields ++ mapKeysFields f others := by
  induction fields with
  | nil => rfl
  | cons p r ih => rw [List.cons_append, mapKeysFields, ih, mapKeysFields, List.cons_append]

/-- **A document stays the same** if its fields do. -/
theorem ofFields_mapKeysFields_iff {fields : List (String × Value)} (hd : (keys fields).Nodup) :
    ofFields (mapKeysFields f fields) = fields ↔ mapKeysFields f fields = fields := by
  constructor
  · intro h
    have hsame : ofFields (mapKeysFields f fields) = mapKeysFields f fields :=
      ofFields_of_length (by rw [h, length_mapKeysFields])
    rw [← hsame, h]
  · intro h
    rw [h, ofFields_of_nodup hd]

/-- **A document comes back** if its fields do. -/
theorem ofFields_mapKeysFields_twice_iff {fields : List (String × Value)}
    (hd : (keys fields).Nodup) :
    ofFields (mapKeysFields g (ofFields (mapKeysFields f fields))) = fields ↔
      mapKeysFields g (mapKeysFields f fields) = fields := by
  constructor
  · intro h
    have hlength := congrArg List.length h
    have houter := length_ofFields_le (mapKeysFields g (ofFields (mapKeysFields f fields)))
    have hinner := length_ofFields_le (mapKeysFields f fields)
    rw [length_mapKeysFields] at houter hinner
    have hsame : ofFields (mapKeysFields f fields) = mapKeysFields f fields :=
      ofFields_of_length (by rw [length_mapKeysFields]; omega)
    rw [hsame] at h
    have houter : ofFields (mapKeysFields g (mapKeysFields f fields)) =
        mapKeysFields g (mapKeysFields f fields) :=
      ofFields_of_length (by rw [h, length_mapKeysFields, length_mapKeysFields])
    rw [← houter, h]
  · intro h
    have hkeys : ((keys fields).map f).map g = keys fields := by
      rw [← keys_mapKeysFields, ← keys_mapKeysFields, h]
    have hinner : (keys (mapKeysFields f fields)).Nodup := by
      rw [keys_mapKeysFields]
      exact List.Nodup.of_map g (by rwa [hkeys])
    rw [ofFields_of_nodup hinner, h, ofFields_of_nodup hd]

mutual

/-- **A value comes back** if all its keys do. -/
theorem mapKeys_mapKeys_iff {v : Value} (hd : v.KeysDistinct) :
    mapKeys g (mapKeys f v) = v ↔ ∀ key ∈ v.allKeys, g (f key) = key := by
  match v with
  | .array items =>
    rw [mapKeys, mapKeys, Value.array.injEq]
    exact mapKeysItems_mapKeysItems_iff hd
  | .document fields =>
    rw [mapKeys, mapKeys, Value.document.injEq, ofFields_mapKeysFields_twice_iff hd.1]
    exact mapKeysFields_mapKeysFields_iff hd.2
  | .null | .undefined | .minKey | .maxKey | .bool _ | .int32 _ | .int64 _ | .double _
  | .decimal128 _ | .string _ | .symbol _ | .code _ | .binary _ _ | .objectId _ | .dateTime _
  | .timestamp _ _ => simp [mapKeys, allKeys]

theorem mapKeysItems_mapKeysItems_iff {items : List Value} (hd : ItemsDistinct items) :
    mapKeysItems g (mapKeysItems f items) = items ↔ ∀ key ∈ itemsKeys items, g (f key) = key := by
  match items with
  | [] => simp [mapKeysItems, itemsKeys]
  | v :: r =>
    rw [mapKeysItems, mapKeysItems, List.cons.injEq, mapKeys_mapKeys_iff hd.1,
      mapKeysItems_mapKeysItems_iff hd.2, itemsKeys, List.forall_mem_append]

theorem mapKeysFields_mapKeysFields_iff {fields : List (String × Value)}
    (hd : FieldsDistinct fields) :
    mapKeysFields g (mapKeysFields f fields) = fields ↔
      ∀ key ∈ fieldsKeys fields, g (f key) = key := by
  match fields with
  | [] => simp [mapKeysFields, fieldsKeys]
  | (k, v) :: r =>
    rw [mapKeysFields, mapKeysFields, List.cons.injEq, Prod.mk.injEq, mapKeys_mapKeys_iff hd.1,
      mapKeysFields_mapKeysFields_iff hd.2, fieldsKeys, List.forall_mem_cons,
      List.forall_mem_append, and_assoc]

end

mutual

/-- **A value stays the same** if all its keys do. -/
theorem mapKeys_eq_self_iff {v : Value} (hd : v.KeysDistinct) :
    mapKeys f v = v ↔ ∀ key ∈ v.allKeys, f key = key := by
  match v with
  | .array items =>
    rw [mapKeys, Value.array.injEq]
    exact mapKeysItems_eq_self_iff hd
  | .document fields =>
    rw [mapKeys, Value.document.injEq, ofFields_mapKeysFields_iff hd.1]
    exact mapKeysFields_eq_self_iff hd.2
  | .null | .undefined | .minKey | .maxKey | .bool _ | .int32 _ | .int64 _ | .double _
  | .decimal128 _ | .string _ | .symbol _ | .code _ | .binary _ _ | .objectId _ | .dateTime _
  | .timestamp _ _ => simp [mapKeys, allKeys]

theorem mapKeysItems_eq_self_iff {items : List Value} (hd : ItemsDistinct items) :
    mapKeysItems f items = items ↔ ∀ key ∈ itemsKeys items, f key = key := by
  match items with
  | [] => simp [mapKeysItems, itemsKeys]
  | v :: r =>
    rw [mapKeysItems, List.cons.injEq, mapKeys_eq_self_iff hd.1, mapKeysItems_eq_self_iff hd.2,
      itemsKeys, List.forall_mem_append]

theorem mapKeysFields_eq_self_iff {fields : List (String × Value)} (hd : FieldsDistinct fields) :
    mapKeysFields f fields = fields ↔ ∀ key ∈ fieldsKeys fields, f key = key := by
  match fields with
  | [] => simp [mapKeysFields, fieldsKeys]
  | (k, v) :: r =>
    rw [mapKeysFields, List.cons.injEq, Prod.mk.injEq, mapKeys_eq_self_iff hd.1,
      mapKeysFields_eq_self_iff hd.2, fieldsKeys, List.forall_mem_cons, List.forall_mem_append,
      and_assoc]

end

end Dialect

end Registrar
