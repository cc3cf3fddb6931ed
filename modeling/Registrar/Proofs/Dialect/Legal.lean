import Mathlib.Data.List.Perm.Subperm
import Registrar.Proofs.Dialect.Encoding
import Registrar.Proofs.Text.Joining

/-!
# Escaped documents are legal

No key of an escaped document has a mark, at any depth, and a path is escaped segment by segment.
The scalars are not touched: each one in the escaped document is a scalar of the document, and only
the keys on the way to it are escaped. But two keys of one document may be escaped to one key. Then
the first of the two fields is written over, and the scalars in it are gone. So the scalars are
those of the document exactly if no field with a scalar in it comes before another that gets the
same key.

* `Document.ofFields_cons_perm`: a field is written over if a later one has its key.
* `Value.scalars`: the scalars in a value and the ways to them.
* `KeepsScalars`: no field with a scalar in it is written over.
* `scalars_mapKeys_subperm`: no scalar is new when keys are changed.
* `scalars_mapKeys_perm_iff`: **the scalars are those from before** if none is written over.
* `escaped_whole_iff`: **an escaped document is legal**, and whole under that condition.
-/

namespace Registrar

namespace Document

variable {d : Document} {key : String} {v : Value} {fields : List (String × Value)}

/-! ### Fields that are written over -/

theorem put_perm (h : d.keys.Nodup) (key : String) (v : Value) :
    (d.put key v).Perm ((key, v) :: d.filter fun f => f.1 ≠ key) := by
  induction d with
  | nil => exact List.Perm.refl _
  | cons f r ih =>
    rw [keys_cons, List.nodup_cons] at h
    rw [put]
    split
    · rename_i heq
      have hrest : r.filter (fun g => g.1 ≠ key) = r := by
        refine List.filter_eq_self.mpr fun g hg => decide_eq_true fun hkey => h.1 ?_
        rw [heq, ← hkey]
        exact List.mem_map_of_mem hg
      rw [List.filter_cons_of_neg (by simpa using heq), hrest, heq]
    · rename_i hne
      rw [List.filter_cons_of_pos (by simpa using hne)]
      exact ((ih h.2).cons f).trans (List.Perm.swap _ _ _)

theorem putAll_perm (h : d.keys.Nodup) (fields : List (String × Value)) :
    (putAll d fields).Perm (d.filter (fun f => f.1 ∉ keys fields) ++ ofFields fields) := by
  induction fields generalizing d with
  | nil => simp [putAll, ofFields, keys]
  | cons f r ih =>
    -- the other fields are written into `f` alone as they are into `d` with `f` in it
    have hone : (ofFields (f :: r)).Perm ([f].filter (fun g => g.1 ∉ keys r) ++ ofFields r) :=
      ih (d := [f]) (by simp [keys])
    have hfilter : ((f :: d.filter fun g => g.1 ≠ f.1).filter fun g => g.1 ∉ keys r).Perm
        (d.filter (fun g => g.1 ∉ keys (f :: r)) ++ [f].filter fun g => g.1 ∉ keys r) := by
      have hboth : (d.filter fun g => g.1 ≠ f.1).filter (fun g => g.1 ∉ keys r) =
          d.filter fun g => g.1 ∉ keys (f :: r) := by
        rw [List.filter_filter]
        refine List.filter_congr fun g _ => ?_
        simp [keys_cons, Bool.and_comm]
      rw [← hboth, ← List.singleton_append, List.filter_append]
      exact List.perm_append_comm
    rw [putAll_cons]
    calc List.Perm (putAll (d.put f.1 f.2) r)
          ((d.put f.1 f.2).filter (fun g => g.1 ∉ keys r) ++ ofFields r) :=
        ih (nodup_keys_put h f.1 f.2)
      List.Perm _
          ((f :: d.filter fun g => g.1 ≠ f.1).filter (fun g => g.1 ∉ keys r) ++ ofFields r) :=
        ((put_perm h f.1 f.2).filter _).append_right _
      List.Perm _
          (d.filter (fun g => g.1 ∉ keys (f :: r)) ++
            ([f].filter (fun g => g.1 ∉ keys r) ++ ofFields r)) := by
        rw [← List.append_assoc]
        exact hfilter.append_right _
      List.Perm _ (d.filter (fun g => g.1 ∉ keys (f :: r)) ++ ofFields (f :: r)) :=
        hone.symm.append_left _

/-- **A field is written over** if a later one has its key. -/
theorem ofFields_cons_perm (f : String × Value) (r : List (String × Value)) :
    (ofFields (f :: r)).Perm (if f.1 ∈ keys r then ofFields r else f :: ofFields r) := by
  have hone : (ofFields (f :: r)).Perm ([f].filter (fun g => g.1 ∉ keys r) ++ ofFields r) :=
    putAll_perm (d := [f]) (by simp [keys]) r
  split
  · rename_i hmem
    simpa [hmem] using hone
  · rename_i hmem
    simpa [hmem] using hone

theorem ofFields_subset (fields : List (String × Value)) : ofFields fields ⊆ fields := by
  induction fields with
  | nil => exact List.Subset.refl _
  | cons f r ih =>
    intro p hp
    have hcases := (ofFields_cons_perm f r).mem_iff.mp hp
    split at hcases
    · exact List.mem_cons_of_mem f (ih hcases)
    · exact (List.mem_cons.mp hcases).elim (· ▸ List.mem_cons_self)
        fun h => List.mem_cons_of_mem f (ih h)

end Document

namespace Value

/-! ### Scalars -/

/-- **A step into a value.** -/
inductive Step where
  | item (index : Nat)
  | field (key : String)

namespace Step

/-- A step to a field whose key is changed. -/
def rename (f : String → String) : Step → Step
  | .item index => .item index
  | .field key => .field (f key)

end Step

/-- **A scalar in a value**, with the way to it. -/
structure Scalar where
  way : List Step
  value : Value

namespace Scalar

/-- The scalar in the value to which the step leads. -/
def below (step : Step) (s : Scalar) : Scalar := { s with way := step :: s.way }

/-- **The same scalar** behind changed keys. -/
def rename (f : String → String) (s : Scalar) : Scalar :=
  { s with way := s.way.map (Step.rename f) }

theorem below_injective (step : Step) : Function.Injective (below step) := by
  rintro ⟨way, v⟩ ⟨way', v'⟩ h
  simpa [below] using h

end Scalar

mutual

/-- **The scalars in a value**, at every depth: the values that are no lists and no documents. -/
def scalars : Value → List Scalar
  | .array items => itemsScalars 0 items
  | .document fields => fieldsScalars fields
  | v => [⟨[], v⟩]

def itemsScalars (index : Nat) : List Value → List Scalar
  | [] => []
  | v :: r => (scalars v).map (Scalar.below (.item index)) ++ itemsScalars (index + 1) r

def fieldsScalars : List (String × Value) → List Scalar
  | [] => []
  | (k, v) :: r => (scalars v).map (Scalar.below (.field k)) ++ fieldsScalars r

end

theorem fieldsScalars_eq_flatMap (fields : List (String × Value)) :
    fieldsScalars fields =
      fields.flatMap fun f => (scalars f.2).map (Scalar.below (.field f.1)) := by
  induction fields with
  | nil => rfl
  | cons f r ih => rw [fieldsScalars, ih, List.flatMap_cons]

theorem mem_fieldsKeys {fields : List (String × Value)} {key : String} :
    key ∈ fieldsKeys fields ↔ ∃ f ∈ fields, key = f.1 ∨ key ∈ f.2.allKeys := by
  induction fields with
  | nil => simp [fieldsKeys]
  | cons f r ih =>
    rw [fieldsKeys, List.mem_cons, List.mem_append, ih, List.exists_mem_cons_iff, or_assoc]

end Value

namespace Dialect

open Value Document

variable {f : String → String}

mutual

/-- **No scalar is written over** when the keys are changed: a field with a scalar in it is the last
one of its document with its new key. -/
def KeepsScalars (f : String → String) : Value → Prop
  | .array items => ItemsKept f items
  | .document fields => FieldsKept f fields
  | _ => True

def ItemsKept (f : String → String) : List Value → Prop
  | [] => True
  | v :: r => KeepsScalars f v ∧ ItemsKept f r

def FieldsKept (f : String → String) : List (String × Value) → Prop
  | [] => True
  | (k, v) :: r => (scalars v = [] ∨ f k ∉ (keys r).map f) ∧ KeepsScalars f v ∧ FieldsKept f r

end

/-! ### Changing the keys -/

mutual

/-- **The keys of a value whose keys are changed** are changed keys. -/
theorem allKeys_mapKeys_subset (v : Value) : (mapKeys f v).allKeys ⊆ v.allKeys.map f := by
  match v with
  | .array items => exact itemsKeys_mapKeysItems_subset items
  | .document fields =>
    intro key hkey
    rw [mapKeys, allKeys, mem_fieldsKeys] at hkey
    obtain ⟨p, hp, hkey⟩ := hkey
    exact fieldsKeys_mapKeysFields_subset fields
      (mem_fieldsKeys.mpr ⟨p, ofFields_subset _ hp, hkey⟩)
  | .null | .undefined | .minKey | .maxKey | .bool _ | .int32 _ | .int64 _ | .double _
  | .decimal128 _ | .string _ | .symbol _ | .code _ | .binary _ _ | .objectId _ | .dateTime _
  | .timestamp _ _ => exact List.nil_subset _

theorem itemsKeys_mapKeysItems_subset (items : List Value) :
    itemsKeys (mapKeysItems f items) ⊆ (itemsKeys items).map f := by
  match items with
  | [] => exact List.nil_subset _
  | v :: r =>
    rw [mapKeysItems, itemsKeys, itemsKeys, List.map_append]
    exact List.append_subset.mpr
      ⟨List.Subset.trans (allKeys_mapKeys_subset v) (List.subset_append_left _ _),
        List.Subset.trans (itemsKeys_mapKeysItems_subset r) (List.subset_append_right _ _)⟩

theorem fieldsKeys_mapKeysFields_subset (fields : List (String × Value)) :
    fieldsKeys (mapKeysFields f fields) ⊆ (fieldsKeys fields).map f := by
  match fields with
  | [] => exact List.nil_subset _
  | (k, v) :: r =>
    rw [mapKeysFields, fieldsKeys, fieldsKeys, List.map_cons, List.map_append]
    exact List.cons_subset_cons _ (List.append_subset.mpr
      ⟨List.Subset.trans (allKeys_mapKeys_subset v) (List.subset_append_left _ _),
        List.Subset.trans (fieldsKeys_mapKeysFields_subset r) (List.subset_append_right _ _)⟩)

end

theorem map_below_map_rename (step : Step) (ss : List Scalar) :
    (ss.map (Scalar.rename f)).map (Scalar.below (step.rename f)) =
      (ss.map (Scalar.below step)).map (Scalar.rename f) := by
  rw [List.map_map, List.map_map]
  rfl

theorem fieldsScalars_ofFields_cons_perm (p : String × Value) (r : List (String × Value)) :
    (fieldsScalars (ofFields (p :: r))).Perm
      ((if p.1 ∈ keys r then [] else (scalars p.2).map (Scalar.below (.field p.1))) ++
        fieldsScalars (ofFields r)) := by
  have hperm := (ofFields_cons_perm p r).flatMap_right
    fun f => (scalars f.2).map (Scalar.below (.field f.1))
  rw [fieldsScalars_eq_flatMap, fieldsScalars_eq_flatMap]
  split at hperm
  · rename_i hmem
    rwa [if_pos hmem]
  · rename_i hmem
    rwa [if_neg hmem]

mutual

/-- **No scalar is new** when keys are changed. -/
theorem scalars_mapKeys_subperm (v : Value) :
    (mapKeys f v).scalars.Subperm (v.scalars.map (Scalar.rename f)) := by
  match v with
  | .array items => exact itemsScalars_mapKeysItems_subperm 0 items
  | .document fields => exact fieldsScalars_mapKeysFields_subperm fields
  | .null | .undefined | .minKey | .maxKey | .bool _ | .int32 _ | .int64 _ | .double _
  | .decimal128 _ | .string _ | .symbol _ | .code _ | .binary _ _ | .objectId _ | .dateTime _
  | .timestamp _ _ => exact List.Subperm.refl _

theorem itemsScalars_mapKeysItems_subperm (index : Nat) (items : List Value) :
    (itemsScalars index (mapKeysItems f items)).Subperm
      ((itemsScalars index items).map (Scalar.rename f)) := by
  match items with
  | [] => exact List.Subperm.refl _
  | v :: r =>
    rw [mapKeysItems, itemsScalars, itemsScalars, List.map_append, ← map_below_map_rename]
    exact ((scalars_mapKeys_subperm v).map (Scalar.below_injective _)).append
      (itemsScalars_mapKeysItems_subperm (index + 1) r)

theorem fieldsScalars_mapKeysFields_subperm (fields : List (String × Value)) :
    (fieldsScalars (ofFields (mapKeysFields f fields))).Subperm
      ((fieldsScalars fields).map (Scalar.rename f)) := by
  match fields with
  | [] => exact List.Subperm.refl _
  | (k, v) :: r =>
    rw [mapKeysFields, fieldsScalars, List.map_append, ← map_below_map_rename]
    refine (fieldsScalars_ofFields_cons_perm _ _).subperm.trans (List.Subperm.append ?_
      (fieldsScalars_mapKeysFields_subperm r))
    split
    · exact List.nil_subperm
    · exact (scalars_mapKeys_subperm v).map (Scalar.below_injective _)

end

theorem length_scalars_mapKeys_le (v : Value) :
    (mapKeys f v).scalars.length ≤ v.scalars.length := by
  simpa using (scalars_mapKeys_subperm (f := f) v).length_le

mutual

/-- **No scalar is lost** if none is written over. -/
theorem length_scalars_mapKeys_iff (v : Value) :
    (mapKeys f v).scalars.length = v.scalars.length ↔ KeepsScalars f v := by
  match v with
  | .array items => exact length_itemsScalars_mapKeysItems_iff 0 items
  | .document fields => exact length_fieldsScalars_mapKeysFields_iff fields
  | .null | .undefined | .minKey | .maxKey | .bool _ | .int32 _ | .int64 _ | .double _
  | .decimal128 _ | .string _ | .symbol _ | .code _ | .binary _ _ | .objectId _ | .dateTime _
  | .timestamp _ _ => exact iff_of_true rfl trivial

theorem length_itemsScalars_mapKeysItems_iff (index : Nat) (items : List Value) :
    (itemsScalars index (mapKeysItems f items)).length = (itemsScalars index items).length ↔
      ItemsKept f items := by
  match items with
  | [] => exact iff_of_true rfl trivial
  | v :: r =>
    have hv : (mapKeys f v).scalars.length ≤ v.scalars.length := length_scalars_mapKeys_le v
    have hr := (itemsScalars_mapKeysItems_subperm (f := f) (index + 1) r).length_le
    rw [List.length_map] at hr
    rw [mapKeysItems, itemsScalars, itemsScalars, ItemsKept, ← length_scalars_mapKeys_iff v,
      ← length_itemsScalars_mapKeysItems_iff (index + 1) r]
    simp only [List.length_append, List.length_map]
    omega

theorem length_fieldsScalars_mapKeysFields_iff (fields : List (String × Value)) :
    (fieldsScalars (ofFields (mapKeysFields f fields))).length = (fieldsScalars fields).length ↔
      FieldsKept f fields := by
  match fields with
  | [] => exact iff_of_true rfl trivial
  | (k, v) :: r =>
    have hv : (mapKeys f v).scalars.length ≤ v.scalars.length := length_scalars_mapKeys_le v
    have hr := (fieldsScalars_mapKeysFields_subperm (f := f) r).length_le
    rw [List.length_map] at hr
    rw [mapKeysFields, (fieldsScalars_ofFields_cons_perm _ _).length_eq, fieldsScalars, FieldsKept,
      ← length_scalars_mapKeys_iff v, ← length_fieldsScalars_mapKeysFields_iff r,
      ← List.length_eq_zero_iff, keys_mapKeysFields]
    by_cases hlater : f k ∈ (keys r).map f
    · -- the field is written over, so it must not have had a scalar
      simp only [hlater, if_true, List.nil_append, List.length_append, List.length_map,
        not_true_eq_false, or_false]
      omega
    · simp only [hlater, if_false, List.length_append, List.length_map, not_false_eq_true, or_true,
        true_and]
      omega

end

/-- **The scalars are those from before** if none is written over. -/
theorem scalars_mapKeys_perm_iff (v : Value) :
    (mapKeys f v).scalars.Perm (v.scalars.map (Scalar.rename f)) ↔ KeepsScalars f v := by
  rw [← length_scalars_mapKeys_iff]
  constructor
  · intro h
    rw [h.length_eq, List.length_map]
  · intro h
    exact (scalars_mapKeys_subperm v).perm_of_length_le (by rw [List.length_map, h])

/-! ### Escaping -/

theorem document_escapeDocument (d : Document) :
    Value.document (escapeDocument d) = escapeValue (.document d) := by
  rw [escapeValue, mapKeys, escapeDocument]

/-- **No key of an escaped value has a mark.** -/
theorem hasPlainKeys_escapeValue (v : Value) : HasPlainKeys (escapeValue v) := by
  intro key hkey
  obtain ⟨k, -, rfl⟩ := List.mem_map.mp (allKeys_mapKeys_subset v hkey)
  exact plain_escapeKey k

/-- **A path is escaped segment by segment**, each like a key. -/
theorem segments_escapePath (path : String) :
    Text.segments (escapePath path) = (Text.segments path).map escapeKey := by
  refine Text.segments_intercalate (fun h => ?_) fun name hname => ?_
  · exact Text.splitDots_ne_nil path.toList (List.map_eq_nil_iff.mp (List.map_eq_nil_iff.mp h))
  · obtain ⟨segment, -, rfl⟩ := List.mem_map.mp hname
    exact (plain_escapeKey segment).dot

/-- **An escaped document is legal**: no key at any depth has a mark. Its scalars are scalars of the
document behind escaped keys, and they are all of them if and only if no field with a scalar in it
comes before another with the same escaped key. A path is escaped segment by segment, each like a
key. -/
theorem escaped_whole_iff (d : Document) (path : String) :
    HasPlainKeys (.document (escapeDocument d)) ∧
      (Value.document (escapeDocument d)).scalars.Subperm
        ((Value.document d).scalars.map (Scalar.rename escapeKey)) ∧
      ((Value.document (escapeDocument d)).scalars.Perm
          ((Value.document d).scalars.map (Scalar.rename escapeKey)) ↔
        KeepsScalars escapeKey (.document d)) ∧
      Text.segments (escapePath path) = (Text.segments path).map escapeKey := by
  rw [document_escapeDocument]
  exact ⟨hasPlainKeys_escapeValue _, scalars_mapKeys_subperm _, scalars_mapKeys_perm_iff _,
    segments_escapePath path⟩

/-- An offer with marks in its keys and in its texts. -/
def offer : Document :=
  [("attributes", .document [("a.b", .string "x.y"), ("$cost", .int32 12)]),
    ("numbers", .array [.document [("number", .string "+41 $1")]])]

/-- Fields whose keys are escaped to one key. -/
def homonyms : Document := [("a.b", .string "x"), ("a__dot__b", .string "y")]

/-- The offer keeps its scalars, while **the first of the homonyms is lost**. -/
theorem homonyms_merged :
    (Value.document (escapeDocument offer)).scalars.Perm
        ((Value.document offer).scalars.map (Scalar.rename escapeKey)) ∧
      escapeDocument homonyms = [("a__dot__b", .string "y")] ∧
        ¬ (Value.document (escapeDocument homonyms)).scalars.Perm
          ((Value.document homonyms).scalars.map (Scalar.rename escapeKey)) := by
  have hdotted : escapeKey "a.b" = "a__dot__b" := by decide
  have hplain : escapeKey "a__dot__b" = "a__dot__b" := by decide
  refine ⟨(escaped_whole_iff offer "").2.2.1.mpr ?_, ?_, fun h => ?_⟩
  · have houter : escapeKey "attributes" ≠ escapeKey "numbers" := by decide
    have hinner : escapeKey "a.b" ≠ escapeKey "$cost" := by decide
    simp [offer, KeepsScalars, FieldsKept, ItemsKept, keys, houter, hinner]
  · simp [homonyms, escapeDocument, mapKeysFields, mapKeys, hdotted, hplain, ofFields, put]
  · have hkept := (escaped_whole_iff homonyms "").2.2.1.mp h
    simp [homonyms, KeepsScalars, FieldsKept, scalars, keys, hdotted, hplain] at hkept

end Dialect

end Registrar
