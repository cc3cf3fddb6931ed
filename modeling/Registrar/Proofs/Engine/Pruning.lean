import Registrar.Proofs.Engine.Hydrating
import Registrar.Proofs.Engine.Operations

/-!
# Pruned references

Before a document is written, the relations that were chosen are followed, and the ids of entities
that do not exist are taken out of their fields. Since nothing is written meanwhile, the result can
be told from the store alone.

* `Relation.prunedIn`, `Schema.prunedIn`: a document as it is pruned in a store.
* `Relation.targetIds_prunedIn`: the ids that are left.
* `Relation.prunedChange`: what is reported of a relation.
* `tells_follow`, `tells_resolve`: following relations prunes in this way.
* `has_of_mem_prunedIn`: ids that are left are ids of entities that exist.
* `value?_prunedIn`: other fields stay.
* `yields_lookup`: a look-up reports nothing but fields with some of the ids that they had.
-/

namespace Registrar

namespace Relation

variable {w : Surroundings} {s : Store} {F : Prop} {r : Relation} {d : Document}

theorem targetIds_congr {d' : Document} (h : d'.value? r.idField = d.value? r.idField) :
    r.targetIds d' = r.targetIds d := by
  rw [targetIds, targetIds, Document.valueOrNull, Document.valueOrNull, h]

theorem targetIds_put_prunedValue (r : Relation) (d : Document) (kept : List Uuid) :
    r.targetIds (d.put r.idField (r.prunedValue kept)) =
      match r.cardinality with
      | .many => kept
      | .one => [] := by
  rw [targetIds, Document.valueOrNull, Document.value?_put_self, prunedValue]
  cases r.cardinality with
  | many => exact Value.uuids_ofUuids kept
  | one => rfl

/-- The ids that are kept when the relation is pruned. -/
def keptIn (s : Store) (r : Relation) (d : Document) : List Uuid :=
  (r.targetIds d).filter fun id => ((s.entries r.target).document? id).isSome

/-- **A document without the ids of missing entities** in the field of a relation. -/
def prunedIn (s : Store) (d : Document) (r : Relation) : Document :=
  if (r.keptIn s d).length = (r.targetIds d).length then d
  else d.put r.idField (r.prunedValue (r.keptIn s d))

theorem value?_prunedIn_of_ne {name : String} (h : name ≠ r.idField) :
    (r.prunedIn s d).value? name = d.value? name := by
  rw [prunedIn]
  split
  · rfl
  · exact Document.value?_put_of_ne d _ h

theorem length_targetIds_of_one (h : r.cardinality = .one) (d : Document) :
    (r.targetIds d).length ≤ 1 := by
  rw [targetIds, h]
  cases (d.valueOrNull r.idField).uuid? <;> simp

theorem length_keptIn_eq_iff :
    (r.keptIn s d).length = (r.targetIds d).length ↔ r.keptIn s d = r.targetIds d :=
  ⟨List.filter_sublist.eq_of_length, congrArg List.length⟩

/-- **The ids that are left** after pruning are those of entities that exist. -/
theorem targetIds_prunedIn (s : Store) (r : Relation) (d : Document) :
    r.targetIds (r.prunedIn s d) = r.keptIn s d := by
  rw [prunedIn]
  split
  · rename_i hlen
    exact (length_keptIn_eq_iff.mp hlen).symm
  · rename_i hlen
    rw [targetIds_put_prunedValue]
    cases hc : r.cardinality with
    | many => rfl
    | one =>
      -- A single id that is not kept is the only one.
      have hle : (r.keptIn s d).length ≤ (r.targetIds d).length := List.length_filter_le ..
      have hone := length_targetIds_of_one hc d
      exact (List.length_eq_zero_iff.mp (by omega)).symm

theorem has_of_mem_prunedIn {id : Uuid} (h : id ∈ r.targetIds (r.prunedIn s d)) :
    s.Has r.target id := by
  rw [targetIds_prunedIn] at h
  exact Store.isSome_document?.mp (List.mem_filter.mp h).2

/-- **What a relation reports**: the new value of its field, if any id dangles. -/
def prunedChange (s : Store) (d : Document) (r : Relation) : Option Value :=
  if (r.keptIn s d).length = (r.targetIds d).length then none
  else some (r.prunedValue (r.keptIn s d))

theorem lookup_prune {found : Found} (hfound : r.Fetched s (r.targetIds d) found)
    (hidden : List Uuid) :
    r.lookup ⟨true, false⟩ found hidden d = (r.prunedIn s d, r.prunedChange s d) := by
  have hkept : ((r.targetIds d).filter fun id => (found.get? id).isSome) = r.keptIn s d :=
    List.filter_congr fun id hid => by rw [hfound id hid]
  unfold lookup prunedIn prunedChange
  dsimp only
  rw [hkept]
  by_cases hlen : (r.keptIn s d).length = (r.targetIds d).length
  · have hb : ((r.keptIn s d).length != (r.targetIds d).length) = false := by simpa using hlen
    rw [if_pos hlen, if_pos hlen, hb]
    rfl
  · have hb : ((r.keptIn s d).length != (r.targetIds d).length) = true := by simpa using hlen
    rw [if_neg hlen, if_neg hlen, hb]
    rfl

/-- **Following a relation** changes and reports what dangles. -/
theorem tells_follow (hc : w.cancels → F) (hf : w.fails → F) (hk : s.Keyed) (viewer : Viewer)
    (r : Relation) (d : Document) :
    Tells w s F (· = (r.prunedIn s d, r.prunedChange s d)) (r.resolve viewer ⟨true, false⟩ d) := by
  refine (tells_fetch hc hf hk r _).bind fun found hfound => ?_
  refine (tells_ofExcept (Q := fun _ => True) rfl trivial).bind fun hidden _ => tells_pure ?_
  exact lookup_prune hfound.each hidden

theorem tells_prune (hc : w.cancels → F) (hf : w.fails → F) (hk : s.Keyed) (r : Relation)
    (d : Document) :
    Tells w s F (fun out => out.1 = r.prunedIn s d) (r.resolve none ⟨true, false⟩ d) :=
  (tells_follow hc hf hk none r d).mono fun _ hout => by rw [hout]

theorem tells_pruneAll (hc : w.cancels → F) (hf : w.fails → F) (hk : s.Keyed) (rs : List Relation)
    (d : Document) (changes : Changes) :
    Tells w s F (fun out => out.1 = rs.foldl (prunedIn s) d)
      (resolveAll none ⟨true, false⟩ rs d changes) := by
  induction rs generalizing d changes with
  | nil => exact tells_pure rfl
  | cons r rs ih =>
    refine (tells_prune hc hf hk r d).bind fun out hout => ?_
    rw [List.foldl_cons, ← hout]
    exact ih _ _

end Relation

/-! ### All relations of a schema -/

/-- **A schema with relations** that store their ids in fields of their own. -/
structure Schema.Linked (sc : Schema) : Prop where
  nodup : (sc.relations.map Relation.idField).Nodup
  navigation : ∀ r ∈ sc.relations, ∃ f ∈ sc.fields, f.role = .navigation ∧ f.name = r.navigation

instance (sc : Schema) : Decidable sc.Linked :=
  decidable_of_iff ((sc.relations.map Relation.idField).Nodup ∧
      ∀ r ∈ sc.relations, ∃ f ∈ sc.fields, f.role = .navigation ∧ f.name = r.navigation)
    ⟨fun h => ⟨h.1, h.2⟩, fun h => ⟨h.nodup, h.navigation⟩⟩

namespace Schema

variable {sc : Schema} {w : Surroundings} {s : Store} {F : Prop} {only : Option (List String)}
  {d : Document}

/-- **A document after the chosen relations were pruned.** -/
def prunedIn (sc : Schema) (s : Store) (only : Option (List String)) (d : Document) : Document :=
  (sc.chosenRelations only).foldl (Relation.prunedIn s) d

/-- **Following relations prunes.** -/
theorem tells_resolve (hc : w.cancels → F) (hf : w.fails → F) (hk : s.Keyed)
    (only : Option (List String)) (d : Document) :
    Tells w s F (fun out => out.1 = sc.prunedIn s only d)
      (sc.resolve none ⟨true, false⟩ only d) :=
  Relation.tells_pruneAll hc hf hk _ d []

theorem value?_foldl_prunedIn {rs : List Relation} {name : String}
    (h : ∀ r ∈ rs, name ≠ r.idField) (d : Document) :
    (rs.foldl (Relation.prunedIn s) d).value? name = d.value? name := by
  induction rs generalizing d with
  | nil => rfl
  | cons r rs ih =>
    rw [List.foldl_cons, ih fun x hx => h x (List.mem_cons_of_mem r hx),
      Relation.value?_prunedIn_of_ne (h r List.mem_cons_self)]

theorem value?_prunedIn {name : String} (h : ∀ r ∈ sc.chosenRelations only, name ≠ r.idField) :
    (sc.prunedIn s only d).value? name = d.value? name :=
  value?_foldl_prunedIn h d

theorem has_of_mem_foldl_prunedIn {rs : List Relation} (hnodup : (rs.map Relation.idField).Nodup)
    {r : Relation} (hr : r ∈ rs) (d : Document) {id : Uuid}
    (h : id ∈ r.targetIds (rs.foldl (Relation.prunedIn s) d)) : s.Has r.target id := by
  induction rs generalizing d with
  | nil => cases hr
  | cons r' rs ih =>
    rw [List.map_cons, List.nodup_cons] at hnodup
    rw [List.foldl_cons] at h
    rcases List.mem_cons.mp hr with rfl | hr
    · have hne : ∀ x ∈ rs, r.idField ≠ x.idField := fun x hx heq =>
        hnodup.1 (heq ▸ List.mem_map_of_mem hx)
      rw [Relation.targetIds_congr (value?_foldl_prunedIn hne _)] at h
      exact Relation.has_of_mem_prunedIn h
    · exact ih hnodup.2 hr _ h

theorem chosenRelations_sublist (sc : Schema) (only : Option (List String)) :
    (sc.chosenRelations only).Sublist sc.relations := by
  cases only with
  | none => exact List.Sublist.refl _
  | some names => exact List.filter_sublist

/-- **Ids that are left** in the field of a chosen relation are ids of entities that exist. -/
theorem has_of_mem_prunedIn (hl : sc.Linked) {r : Relation} (hr : r ∈ sc.chosenRelations only)
    {id : Uuid} (h : id ∈ r.targetIds (sc.prunedIn s only d)) : s.Has r.target id :=
  has_of_mem_foldl_prunedIn
    (hl.nodup.sublist ((sc.chosenRelations_sublist only).map Relation.idField)) hr d h

end Schema

/-! ### What a look-up reports -/

namespace Relation

open Program

/-- A field of the relation, with some of the ids that the document has there. -/
def Shortened (r : Relation) (d : Document) (p : String × Value) : Prop :=
  p.1 = r.idField ∧ ∃ kept, (∀ id ∈ kept, id ∈ r.targetIds d) ∧ p.2 = r.prunedValue kept

theorem Shortened.congr {r : Relation} {d d' : Document} {p : String × Value}
    (hd : d'.value? r.idField = d.value? r.idField) (h : r.Shortened d' p) : r.Shortened d p := by
  obtain ⟨hname, kept, hkept, hvalue⟩ := h
  exact ⟨hname, kept, fun id hid => targetIds_congr hd ▸ hkept id hid, hvalue⟩

theorem shortened_lookup {r : Relation} {options : FollowOptions} {found : Found}
    {hidden : List Uuid} {d : Document} {v : Value}
    (h : (r.lookup options found hidden d).2 = some v) : r.Shortened d (r.idField, v) := by
  unfold lookup at h
  dsimp only at h
  split at h
  · cases h
    exact ⟨rfl, _, fun id hid => (List.mem_filter.mp hid).1, rfl⟩
  · cases h

theorem yields_resolve (viewer : Viewer) (options : FollowOptions) (r : Relation) (d : Document) :
    (r.resolve viewer options d).run.Yields fun out =>
      (∀ v, out.2 = some v → r.Shortened d (r.idField, v)) ∧
        ∀ name, r.Avoids options name → out.1.value? name = d.value? name := by
  refine yields_bindE (yields_trivial _) fun found _ => ?_
  refine yields_bindE (yields_trivial _) fun hidden _ => yields_pureE ?_
  exact ⟨fun v hv => shortened_lookup hv, fun name h => value?_lookup_of_avoids h found hidden d⟩

theorem avoids_idField {sc : Schema} (hs : sc.Lawful) (hl : sc.Linked) {r r' : Relation}
    (hr : r ∈ sc.relations) (hr' : r' ∈ sc.relations) (hne : r'.idField ≠ r.idField)
    (options : FollowOptions) : r.Avoids options r'.idField := by
  refine ⟨hne, fun _ => ?_⟩
  obtain ⟨f, hf, hrole, hname⟩ := hl.navigation r hr
  obtain ⟨g, hg, hrole', hname'⟩ := hs.references r' hr'
  rw [← hname, ← hname']
  exact hs.name_ne hg hf (by rw [hrole, hrole']; exact FieldRole.noConfusion)

theorem yields_lookupAll {sc : Schema} (hs : sc.Lawful) (hl : sc.Linked) (viewer : Viewer)
    (options : FollowOptions) {rs : List Relation} (hrs : ∀ r ∈ rs, r ∈ sc.relations)
    (hnodup : (rs.map idField).Nodup) {d d' : Document}
    (hd : ∀ r ∈ rs, d'.value? r.idField = d.value? r.idField) {changes : Changes}
    (hc : ∀ p ∈ changes, ∃ r ∈ sc.relations, r.Shortened d p) :
    (resolveAll viewer options rs d' changes).run.Yields fun out =>
      ∀ p ∈ out.2, ∃ r ∈ sc.relations, r.Shortened d p := by
  induction rs generalizing d' changes with
  | nil => exact yields_pureE hc
  | cons r rs ih =>
    rw [List.map_cons, List.nodup_cons] at hnodup
    refine yields_bindE (r.yields_resolve viewer options d') fun out hout => ?_
    obtain ⟨hshort, hsame⟩ := hout
    have hr := hrs r List.mem_cons_self
    have hrest : ∀ x ∈ rs, out.1.value? x.idField = d.value? x.idField := by
      intro x hx
      have hne : x.idField ≠ r.idField := fun heq => hnodup.1 (heq ▸ List.mem_map_of_mem hx)
      rw [hsame _ (avoids_idField hs hl hr (hrs x (List.mem_cons_of_mem r hx)) hne options)]
      exact hd x (List.mem_cons_of_mem r hx)
    have hrs' : ∀ x ∈ rs, x ∈ sc.relations := fun x hx => hrs x (List.mem_cons_of_mem r hx)
    obtain ⟨d₁, pruned⟩ := out
    cases pruned with
    | none => exact ih hrs' hnodup.2 hrest hc
    | some v =>
      refine ih hrs' hnodup.2 hrest fun p hp => ?_
      rcases Schema.mem_put hp with rfl | hp
      · exact ⟨r, hr, (hshort v rfl).congr (hd r List.mem_cons_self)⟩
      · exact hc p hp

end Relation

/-- **A look-up reports** nothing but fields of relations with some of the ids that they had. -/
theorem Schema.yields_lookup {sc : Schema} (hs : sc.Lawful) (hl : sc.Linked) (viewer : Viewer)
    (options : FollowOptions) (only : Option (List String)) (d : Document) :
    (sc.resolve viewer options only d).run.Yields fun out =>
      ∀ p ∈ out.2, ∃ r ∈ sc.relations, r.Shortened d p :=
  Relation.yields_lookupAll hs hl viewer options (fun _ hr => mem_chosenRelations hr)
    (hl.nodup.sublist ((sc.chosenRelations_sublist only).map Relation.idField)) (fun _ _ => rfl)
    (by simp)

end Registrar
