import Registrar.Proofs.Engine.Written

/-!
# References that operations write

An operation that writes references asks first which of the entities exist, and takes out the ids
of those that do not. Which relations it looks at is decided by the names that the caller gives, as
they are spelled; which fields it writes is decided by the same names after blanks around them and
whatever follows a dot are gone. Where the second reading finds a relation and the first does not,
ids are written that nobody has looked at. There is no other way in which an operation writes the id
of a missing entity.

* `Relation.Dangles`: a document has the id of a missing entity that it did not have before.
* `Collection.Unpruned`: a caller submits such an id, and spells the relation in such a way.
* `Effect.dangles_iff`: the first comes about exactly when the second is written.
-/

namespace Registrar

/-- **Canonical forms refer** to the same entities. -/
structure EntityKind.Referring {E : Type} (k : EntityKind E) : Prop where
  withId : ∀ id e, ∀ r ∈ k.schema.relations,
    r.targetIds (k.toDocument (k.withId id e)) = r.targetIds (k.toDocument e)
  normal : ∀ e e', (k.normalize e).Gives e' → ∀ r ∈ k.schema.relations,
    r.targetIds (k.toDocument e') = r.targetIds (k.toDocument e)

/-- **A document gets the id of a missing entity**, between one store and the next. -/
def Relation.Dangles (r : Relation) (collection : String) (s t : Store) : Prop :=
  ∃ k d id, (k, d) ∈ t.entries collection ∧ id ∈ r.targetIds d ∧
    (∀ d₀, (k, d₀) ∈ s.entries collection → id ∉ r.targetIds d₀) ∧ ¬ s.Has r.target id

namespace Relation

variable {r : Relation}

theorem targetIds_of_valueOrNull {d d' : Document}
    (h : d'.valueOrNull r.idField = d.valueOrNull r.idField) : r.targetIds d' = r.targetIds d := by
  rw [targetIds, targetIds, h]

theorem targetIds_of_document {d inner : Document}
    (h : d.value? r.idField = some (.document inner)) : r.targetIds d = [] := by
  rw [targetIds, Document.valueOrNull, h]
  cases r.cardinality <;> rfl

end Relation

/-- The plan for the names writes the field of the relation as a whole. -/
def Schema.WritesReferences (sc : Schema) (existing : Option Document) (names : List String)
    (r : Relation) : Prop :=
  ∃ g ∈ sc.fields, g.name = r.idField ∧ ∃ name ∈ names, sc.WritesWhole existing g name

namespace Collection

variable {E : Type} {c : Collection E} {caller : Caller} {s t : Store} {r : Relation}

/-- **A caller submits the id of a missing entity** for a relation that is written, but not found
among the names as they are spelled. -/
def Unpruned (c : Collection E) (caller : Caller) (s : Store) (r : Relation) :
    Operation E → Prop
  | .applyDelta delta =>
    r ∉ c.schema.chosenRelations (some delta.roots) ∧
      ∃ d, (delta.id, d) ∈ s.entries c.name ∧
        c.schema.WritesReferences (some d)
          (delta.paths ++ c.schema.uncovered delta.properties delta.paths) r ∧
        ∃ id ∈ r.targetIds (c.kind.toDocument delta.data),
          id ∉ r.targetIds d ∧ ¬ s.Has r.target id
  | .assign bulk =>
    r ∉ c.schema.chosenRelations (some bulk.properties) ∧
      c.schema.WritesReferences none bulk.properties r ∧
      ∃ ids, c.policy.grantedAmong c.name caller bulk.ids = .ok ids ∧
        ∃ k d, (k, d) ∈ s.entries c.name ∧ (c.visibleAmong caller ids).holds d = true ∧
          ∃ id ∈ r.targetIds (c.kind.toDocument bulk.template),
            id ∉ r.targetIds d ∧ ¬ s.Has r.target id
  | _ => False

/-! ### Ids in a field -/

section Linked

variable (hs : c.schema.Lawful) (hl : c.schema.Linked) (hr : r ∈ c.schema.relations)

include hs hr in
/-- **The ids after an update**: those that the changes set, or some of those from before. -/
theorem targetIds_stamped {changes : Changes} {p : Document}
    (h : SettlesIfNamed changes r.idField (p.valueOrNull r.idField)) (now : Int64) (d : Document) :
    changes.value? r.idField = some (p.valueOrNull r.idField) ∧
        r.targetIds ((c.withVersion { sets := changes ++ c.stampsAt caller now }).apply d) =
          r.targetIds p ∨
      changes.value? r.idField = none ∧ ∀ id ∈ r.targetIds
        ((c.withVersion { sets := changes ++ c.stampsAt caller now }).apply d),
          id ∈ r.targetIds d := by
  obtain ⟨g, hg, hrole, hname⟩ := hs.references r hr
  have hdotless : '.' ∉ r.idField.toList := hname ▸ hs.dotless g hg
  have hvalue : ((c.withVersion { sets := changes ++ c.stampsAt caller now }).apply d).value?
      r.idField = (Document.setAll changes d).value? r.idField := by
    rw [← hname]
    exact value?_stamped hs hg (by simp [hrole]) changes now d
  rcases h.value?_setAll hdotless d with ⟨hset, hd⟩ | ⟨hnone, hd | ⟨inner, hd⟩⟩
  · refine .inl ⟨hset, Relation.targetIds_of_valueOrNull ?_⟩
    rw [Document.valueOrNull, hvalue, hd, Option.getD_some]
  · refine .inr ⟨hnone, fun id hid => ?_⟩
    rwa [Relation.targetIds_congr (hvalue.trans hd)] at hid
  · refine .inr ⟨hnone, fun id hid => ?_⟩
    rw [Relation.targetIds_of_document (hvalue.trans hd)] at hid
    exact absurd hid List.not_mem_nil

include hl hr in
theorem eq_of_idField {r' : Relation} (hr' : r' ∈ c.schema.relations)
    (h : r'.idField = r.idField) : r' = r :=
  List.inj_on_of_nodup_map hl.nodup hr' hr h

/-! ### Ids that are submitted -/

theorem touchesRelation_of_chosen {names : List String}
    (h : r ∈ c.schema.chosenRelations (some names)) : c.touchesRelation names = true := by
  obtain ⟨name, hname, hfound⟩ := List.any_eq_true.mp (List.mem_filter.mp h).2
  refine List.any_eq_true.mpr ⟨name, hname, ?_⟩
  obtain ⟨r', hr', -⟩ := Option.map_eq_some_iff.mp (of_decide_eq_true hfound)
  rw [hr', Option.isSome_some]

include hl in
/-- **A chosen relation is pruned.** -/
theorem has_of_mem_patchOf (hlook : c.settings.lookupOnUpdate = true) {names : List String}
    (h : r ∈ c.schema.chosenRelations (some names)) {e : E} {id : Uuid}
    (hid : id ∈ r.targetIds (c.patchOf s names e)) : s.Has r.target id := by
  rw [patchOf, touchesRelation_of_chosen h, hlook, submitted] at hid
  exact Schema.has_of_mem_prunedIn hl h hid

include hl hr in
theorem targetIds_patchOf {names : List String} (h : r ∉ c.schema.chosenRelations (some names))
    (e : E) : r.targetIds (c.patchOf s names e) = r.targetIds (c.kind.toDocument e) := by
  rw [patchOf, submitted]
  split
  · refine Relation.targetIds_congr (Schema.value?_prunedIn fun r' hr' heq => h ?_)
    rwa [← eq_of_idField hl hr (Schema.mem_chosenRelations hr') heq.symm]
  · rfl

/-! ### Ids that are written -/

include hs hr in
theorem writesReferences_iff {properties paths : List String} {existing : Option Document} :
    r.idField ∈ c.schema.replaced properties paths existing ↔ c.schema.WritesReferences existing
      (paths ++ c.schema.uncovered properties paths) r := by
  obtain ⟨g, hg, -, hname⟩ := hs.references r hr
  rw [← hname, Schema.mem_replaced_iff hs hg]
  constructor
  · intro h
    exact ⟨g, hg, hname, h⟩
  · rintro ⟨g', hg', hname', h⟩
    rwa [← hs.eq_of_name_eq hg' hg (hname'.trans hname.symm)]

include hs hl hr in
theorem mem_targetIds_reference {r' : Relation} (hr' : r' ∈ c.schema.relations) {v : Value}
    {now : Int64} {d : Document} {id : Uuid} (hid : id ∈ r.targetIds
      ((c.withVersion { sets := [(r'.idField, v)] ++ c.stampsAt caller now }).apply d))
    (hnew : id ∉ r.targetIds d) : r' = r ∧ id ∈ r.targetIds [(r.idField, v)] := by
  by_cases heq : r'.idField = r.idField
  · obtain rfl := eq_of_idField hl hr hr' heq
    have hset : SettlesIfNamed [(r'.idField, v)] r'.idField
        (Document.valueOrNull [(r'.idField, v)] r'.idField) := by
      rw [Document.valueOrNull, Document.value?, if_pos rfl, Option.getD_some]
      exact .inr ⟨[], [], rfl, by simp, by simp⟩
    rcases targetIds_stamped hs hr hset now d with ⟨-, hids⟩ | ⟨-, hids⟩
    · exact ⟨rfl, hids ▸ hid⟩
    · exact absurd (hids id hid) hnew
  · have hnone : Document.value? [(r'.idField, v)] r.idField = none := by
      rw [Document.value?, if_neg heq]
      rfl
    have hset : SettlesIfNamed [(r'.idField, v)] r.idField
        (Document.valueOrNull [] r.idField) := .inl hnone
    rcases targetIds_stamped hs hr hset now d with ⟨hsome, -⟩ | ⟨-, hids⟩
    · rw [hnone] at hsome
      cases hsome
    · exact absurd (hids id hid) hnew

include hs hl hr in
/-- **New ids that a plan writes** exist, unless the relation is not found among the names. -/
theorem mem_targetIds_planned (hlook : c.settings.lookupOnUpdate = true)
    {properties paths names : List String} {existing : Option Document} {e : E}
    {changes : Changes}
    (hchanges : changes = c.schema.plan properties paths (c.patchOf s names e) existing)
    {now : Int64} {d : Document} {id : Uuid} (hid : id ∈ r.targetIds
      ((c.withVersion { sets := changes ++ c.stampsAt caller now }).apply d))
    (hnew : id ∉ r.targetIds d) (hmiss : ¬ s.Has r.target id) :
    r ∉ c.schema.chosenRelations (some names) ∧ c.schema.WritesReferences existing
      (paths ++ c.schema.uncovered properties paths) r ∧
        id ∈ r.targetIds (c.kind.toDocument e) := by
  obtain ⟨g, hg, hrole, hname⟩ := hs.references r hr
  have hplain : ∀ source, g.role ≠ .derived source := by simp [hrole]
  have hset := Schema.settlesIfNamed_plan hs hg hplain properties paths (c.patchOf s names e)
    existing
  rw [hname, ← hchanges] at hset
  rcases targetIds_stamped hs hr hset now d with ⟨hsome, hids⟩ | ⟨-, hids⟩
  · rw [hids] at hid
    have hchosen : r ∉ c.schema.chosenRelations (some names) := fun h =>
      hmiss (has_of_mem_patchOf hl hlook h hid)
    refine ⟨hchosen, (writesReferences_iff hs hr).mp ?_, ?_⟩
    · by_contra hnot
      rw [← hname] at hnot hsome
      rw [hchanges, Schema.value?_plan_eq_none hs hg hplain hnot] at hsome
      cases hsome
    · rwa [targetIds_patchOf hl hr hchosen] at hid
  · exact absurd (hids id hid) hnew

include hs hl hr in
/-- **A plan writes what is submitted** for a relation that is not found among the names. -/
theorem targetIds_planned {properties paths names : List String} {existing : Option Document}
    {e : E} {changes : Changes}
    (hchanges : changes = c.schema.plan properties paths (c.patchOf s names e) existing)
    (hchosen : r ∉ c.schema.chosenRelations (some names)) (hwrites : c.schema.WritesReferences
      existing (paths ++ c.schema.uncovered properties paths) r) (now : Int64) (d : Document) :
    r.targetIds ((c.withVersion { sets := changes ++ c.stampsAt caller now }).apply d) =
      r.targetIds (c.kind.toDocument e) := by
  obtain ⟨g, hg, hrole, hname⟩ := hs.references r hr
  have hreplaced := (writesReferences_iff hs hr).mpr hwrites
  rw [← hname] at hreplaced
  have hset := Schema.settles_plan hs hg (by simp [hrole]) hreplaced (c.patchOf s names e)
  rw [hname, ← hchanges] at hset
  rw [← targetIds_patchOf (s := s) hl hr hchosen e]
  rcases targetIds_stamped hs hr (.inr hset) now d with ⟨-, hids⟩ | ⟨hnone, -⟩
  · exact hids
  · rw [hset.value?] at hnone
    cases hnone

/-! ### New ids -/

include hs hl hr in
/-- **New ids in a document that was loaded** exist, unless they were submitted for a relation that
was not found. -/
theorem Proposes.has_or_unpruned (hf : c.kind.Referring) (hlook : c.settings.lookupOnUpdate = true)
    {op : Operation E} {k : Uuid} {d : Document} {changes : Changes} {now : Int64}
    (hd : (k, d) ∈ s.entries c.name) (h : c.Proposes s op k d changes) {id : Uuid}
    (hid : id ∈ r.targetIds
      ((c.withVersion { sets := changes ++ c.stampsAt caller now }).apply d))
    (hnew : id ∉ r.targetIds d) (hmiss : ¬ s.Has r.target id) : c.Unpruned caller s r op := by
  have hrelation : ∀ {r' : Relation} {name : String}, c.schema.relation? name = some r' →
      r' ∈ c.schema.relations := fun h => List.mem_of_find?_eq_some h
  cases h with
  | @update e e' asked dependencies d changes normal hdependencies hchanges free =>
    exfalso
    obtain ⟨g, hg, hrole, hname⟩ := hs.references r hr
    have hset := Schema.settlesIfNamed_diff hs hg dependencies d
      (c.submitted s (dependencies && c.settings.lookupOnUpdate) none (c.kind.toDocument e'))
    rw [hname, ← hchanges] at hset
    rcases targetIds_stamped hs hr hset now d with ⟨hsome, hids⟩ | ⟨-, hids⟩
    · cases dependencies with
      | false =>
        rw [hchanges, ← hname, Schema.value?_diff_dependency hs hg hrole] at hsome
        cases hsome
      | true =>
        rw [hids, hlook] at hid
        exact hmiss (Schema.has_of_mem_prunedIn hl hr hid)
    · exact hnew (hids id hid)
  | @applyDelta delta e' d changes normal hchanges free =>
    obtain ⟨hchosen, hwrites, hsubmitted⟩ :=
      mem_targetIds_planned hs hl hr hlook hchanges hid hnew hmiss
    rw [hf.normal _ e' normal r hr, hf.withId _ _ r hr] at hsubmitted
    exact ⟨hchosen, d, hd, hwrites, id, hsubmitted, hnew, hmiss⟩
  | @link k target name d r' hr' many exist =>
    exfalso
    obtain ⟨rfl, hset⟩ := mem_targetIds_reference hs hl hr (hrelation hr') hid hnew
    rw [Relation.targetIds, many, Document.valueOrNull, Document.value?, if_pos rfl,
      Option.getD_some] at hset
    dsimp only at hset
    rw [Value.uuids_ofUuids, List.mem_append, List.mem_singleton] at hset
    rcases hset with hold | rfl
    · refine hnew ?_
      rwa [Relation.targetIds, many]
    · exact hmiss exist
  | @unlink k target name d r' hr' many =>
    exfalso
    obtain ⟨rfl, hset⟩ := mem_targetIds_reference hs hl hr (hrelation hr') hid hnew
    rw [Relation.targetIds, many, Document.valueOrNull, Document.value?, if_pos rfl,
      Option.getD_some] at hset
    dsimp only at hset
    rw [Value.uuids_ofUuids] at hset
    refine hnew ?_
    rw [Relation.targetIds, many]
    exact List.mem_of_mem_filter hset
  | @refer k target name d r' hr' one exist =>
    exfalso
    obtain ⟨rfl, hset⟩ := mem_targetIds_reference hs hl hr (hrelation hr') hid hnew
    rw [Relation.targetIds, one, Document.valueOrNull, Document.value?, if_pos rfl,
      Option.getD_some] at hset
    obtain rfl : id = target := by simpa using hset
    exact hmiss exist
  | @clear k name d r' hr' one =>
    exfalso
    obtain ⟨rfl, hset⟩ := mem_targetIds_reference hs hl hr (hrelation hr') hid hnew
    rw [Relation.targetIds, one, Document.valueOrNull, Document.value?, if_pos rfl,
      Option.getD_some] at hset
    exact absurd hset List.not_mem_nil

include hs hl hr in
theorem mem_targetIds_shortened {changes : Changes} {d : Document}
    (hshort : ∀ p ∈ changes, ∃ r ∈ c.schema.relations, r.Shortened d p) {id : Uuid}
    (hid : id ∈ r.targetIds ((c.withVersion { sets := changes }).apply d)) :
    id ∈ r.targetIds d := by
  obtain ⟨g, hg, hrole, hname⟩ := hs.references r hr
  have hvalue : ((c.withVersion { sets := changes }).apply d).value? r.idField =
      (Document.setAll changes d).value? r.idField := by
    rw [← hname]
    exact value?_versioned hs hg (by simp [hrole]) changes d
  rcases @Document.value?_sets_cases changes r.idField d with
    hsame | ⟨v, hv, hset⟩ | ⟨inner, hinner⟩
  · rwa [Relation.targetIds_congr (hvalue.trans hsame)] at hid
  · obtain ⟨r', hr', hfield, kept, hkept, rfl⟩ := hshort _ hv
    obtain rfl := eq_of_idField hl hr hr' hfield.symm
    rw [Relation.targetIds, Document.valueOrNull, hvalue, hset, Option.getD_some,
      Relation.prunedValue] at hid
    cases hcard : r'.cardinality with
    | many =>
      rw [hcard] at hid
      exact hkept id (by simpa using hid)
    | one =>
      rw [hcard] at hid
      exact absurd hid List.not_mem_nil
  · rw [Relation.targetIds_of_document (hvalue.trans hinner)] at hid
    exact absurd hid List.not_mem_nil

include hs hl hr in
theorem has_of_mem_newDocument {e : E} {now : Int64} {id : Uuid}
    (hid : id ∈ r.targetIds (c.stampedNewAt caller now (c.newDocument s e))) :
    s.Has r.target id := by
  obtain ⟨g, hg, hrole, hname⟩ := hs.references r hr
  have hvalue : (c.stampedNewAt caller now (c.newDocument s e)).value? r.idField =
      (c.newDocument s e).value? r.idField := by
    rw [← hname]
    exact c.value?_stampedNewAt caller hs hg (by simp [hrole]) now _
  rw [Relation.targetIds_congr hvalue] at hid
  exact Schema.has_of_mem_prunedIn hl hr hid

include hs hl hr in
/-- **New ids that an operation writes** exist, unless they were submitted for a relation that was
not found. -/
theorem Effect.unpruned (hf : c.kind.Referring) (hlook : c.settings.lookupOnUpdate = true)
    (hk : s.Keyed) {op : Operation E} (h : c.Effect caller s op t)
    (hdangles : r.Dangles c.name s t) : c.Unpruned caller s r op := by
  obtain ⟨k, d', id, hmem, hid, hnew, hmiss⟩ := hdangles
  have hold : (k, d') ∉ s.entries c.name := fun h => hnew d' h hid
  cases h with
  | idle => exact absurd hmem hold
  | added prepares free inserts =>
    rw [Store.entries_insert inserts, if_pos rfl, Entries.mem_insert] at hmem
    rcases hmem with hmem | hmem
    · obtain ⟨rfl, rfl⟩ := Prod.mk.inj hmem
      exact absurd (has_of_mem_newDocument hs hl hr hid) hmiss
    · exact absurd hmem hold
  | updated stored proposes =>
    rcases mem_writtenTo hk stored hmem with hmem | hmem
    · exact absurd hmem hold
    · obtain ⟨rfl, rfl⟩ := Prod.mk.inj hmem
      exact proposes.has_or_unpruned hs hl hr hf hlook stored hid (hnew _ stored) hmiss
  | pruned stored short =>
    rcases mem_writtenTo hk stored hmem with hmem | hmem
    · exact absurd hmem hold
    · obtain ⟨rfl, rfl⟩ := Prod.mk.inj hmem
      exact absurd (mem_targetIds_shortened hs hl hr short hid) (hnew _ stored)
  | @assigned bulk ids e' now changes granted normal hchanges unshared =>
    rcases mem_assignedTo hk hmem with hmem | ⟨d, hd, -, hmeant, rfl⟩
    · exact absurd hmem hold
    · obtain ⟨hchosen, hwrites, hsubmitted⟩ :=
        mem_targetIds_planned hs hl hr hlook hchanges hid (hnew d hd) hmiss
      rw [List.nil_append, Schema.uncovered_nil] at hwrites
      rw [hf.normal _ e' normal r hr] at hsubmitted
      exact ⟨hchosen, hwrites, ids, granted, k, d, hd, hmeant, id, hsubmitted, hnew d hd, hmiss⟩
  | deleted id => exact absurd (Store.mem_of_mem_deleteFirst hmem) hold
  | deletedListed granted => exact absurd (Store.mem_of_mem_deleteAll hmem) hold

include hs hl hr in
/-- **Ids that are submitted for a relation that is not found** are written, if anything is. -/
theorem Effect.dangles (hf : c.kind.Referring) (hk : s.Keyed) {op : Operation E}
    (h : c.Effect caller s op t) (hunpruned : c.Unpruned caller s r op)
    (hne : t.entries c.name ≠ s.entries c.name) : r.Dangles c.name s t := by
  cases op with
  | applyDelta delta =>
    obtain ⟨hchosen, d, hd, hwrites, id, hid, hnew, hmiss⟩ := hunpruned
    cases h with
    | idle => exact absurd rfl hne
    | @updated _ _ d' _ now stored proposes =>
      cases proposes with
      | @applyDelta _ e' _ changes normal hchanges free =>
        obtain rfl : d' = d := Entries.eq_of_mem (hk c.name).nodup stored hd
        refine ⟨delta.id, _, id, written_of_ne hk stored hne, ?_, fun d₀ hd₀ => ?_, hmiss⟩
        · rw [targetIds_planned hs hl hr hchanges hchosen hwrites, hf.normal _ e' normal r hr,
            hf.withId _ _ r hr]
          exact hid
        · rwa [Entries.eq_of_mem (hk c.name).nodup hd₀ stored]
  | assign bulk =>
    obtain ⟨hchosen, hwrites, ids, hgranted, k, d, hd, hmeant, id, hid, hnew, hmiss⟩ := hunpruned
    cases h with
    | idle => exact absurd rfl hne
    | updated _ proposes => cases proposes
    | @assigned _ ids' e' now changes granted normal hchanges unshared =>
      obtain rfl : ids' = ids := by simpa using granted.symm.trans hgranted
      refine ⟨k, _, id, assigned_mem hd hmeant _, ?_, fun d₀ hd₀ => ?_, hmiss⟩
      · rw [targetIds_planned hs hl hr hchanges hchosen, hf.normal _ e' normal r hr]
        · exact hid
        · rwa [List.nil_append, Schema.uncovered_nil]
      · rwa [Entries.eq_of_mem (hk c.name).nodup hd₀ hd]
  | _ => exact hunpruned.elim

include hs hl hr in
/-- **An operation writes the id of a missing entity** exactly when one is submitted for a relation
that is not found among the names, and anything is written. -/
theorem Effect.dangles_iff (hf : c.kind.Referring) (hlook : c.settings.lookupOnUpdate = true)
    (hk : s.Keyed) {op : Operation E} (h : c.Effect caller s op t) :
    r.Dangles c.name s t ↔
      c.Unpruned caller s r op ∧ t.entries c.name ≠ s.entries c.name := by
  constructor
  · intro hdangles
    refine ⟨h.unpruned hs hl hr hf hlook hk hdangles, fun hsame => ?_⟩
    obtain ⟨k, d, id, hmem, hid, hnew, -⟩ := hdangles
    exact hnew d (hsame ▸ hmem) hid
  · rintro ⟨hunpruned, hne⟩
    exact h.dangles hs hl hr hf hk hunpruned hne

end Linked

end Collection

end Registrar
