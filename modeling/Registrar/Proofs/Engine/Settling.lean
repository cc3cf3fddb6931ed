import Registrar.Proofs.Engine.Batches
import Registrar.Proofs.Engine.Dangling
import Registrar.Proofs.Engine.Failures
import Registrar.Proofs.Engine.Relinking

/-!
# Look-ups that settle

A look-up takes the references to missing entities out of a document, and writes the document back
when it has found any. It does not ask whether this write has succeeded, so that what it reports and
what is stored could differ. Undisturbed they do not: the write asks for the version that was
loaded, and no one else has written.

Each relation has a field of its own for its ids and one for its copies. So relations can be
followed in any order, and the document that a look-up makes is the pruned document with the copies
filled in. The document that is left in the store is the pruned one without them. All that it still
refers to exists, and a second look-up finds nothing to prune.

* `Quietly`: a program has a result and requests no write on the way to it.
* `Relation.Apart`: relations that keep to their own fields.
* `Schema.lookedUp`, `Schema.tells_lookUp`: the document that a look-up makes.
* `Collection.PrunedTo`: a document that is pruned in place, and `prunedTo_of_written`: what a
  look-up writes prunes so.
* `Collection.Settles`, `settles_of_get`: **what a look-up leaves**.
* `Collection.Rests`, `rests`: **looking up again** changes nothing.
-/

namespace Registrar

/-! ### Programs that only read -/

theorem Program.Exchanges.of_bind {α β : Type} {w : Surroundings} {s t : Store}
    {l : List Exchange} {p : Program α} {f : α → Program β} {b : β}
    (h : (bind p f).Exchanges w s l b t) :
    ∃ l₁ a u l₂, l = l₁ ++ l₂ ∧ p.Exchanges w s l₁ a u ∧ (f a).Exchanges w u l₂ b t := by
  induction p generalizing s l with
  | done a => exact ⟨[], a, s, l, rfl, ⟨rfl, rfl, rfl⟩, h⟩
  | ask r next ih =>
    obtain ⟨answer, u, l', rfl, hreply, hrest⟩ := h
    obtain ⟨l₁, a, v, l₂, rfl, hp, hf⟩ := ih answer hrest
    exact ⟨⟨r, answer⟩ :: l₁, a, v, l₂, rfl, ⟨answer, u, l₁, rfl, hreply, hp⟩, hf⟩

/-- **A program quietly has a result**: undisturbed it surely has it, and no write is requested. -/
def Quietly {ε α : Type} (s : Store) (m : ExceptT ε Program α) (r : Except ε α) : Prop :=
  ∀ l r' t, m.run.Exchanges .calm s l r' t → r' = r ∧ t = s ∧ ∀ x ∈ l, x.1.isQuiet = true

section Quietly

variable {ε α β : Type} {s : Store} {m : ExceptT ε Program α} {k : α → ExceptT ε Program β}

theorem Surely.quietly {r : Except ε α} (h : Surely s m r) (hm : m.run.Quiet) : Quietly s m r := by
  intro l r' t hrun
  obtain ⟨hr, ht⟩ := (h r' t).mp hrun.runs
  refine ⟨hr, ht, ?_⟩
  -- A quiet program is careful whatever a last write would have to fit, so nothing need fit.
  have hcareful : m.run.Careful fun _ _ _ => False := Program.careful_of_quiet hm
  rcases hcareful.exchanges_cases hrun with ⟨hquiet, -⟩ | ⟨_, _, _, -, -, -, -, hno⟩
  · exact hquiet
  · exact hno.elim

theorem Quietly.surely {r : Except ε α} (h : Quietly s m r) : Surely s m r := by
  refine surely_of_forall fun r' t hrun => ?_
  obtain ⟨l, hexchanges⟩ := hrun.exchanges
  obtain ⟨hr, ht, -⟩ := h l r' t hexchanges
  exact ⟨hr, ht⟩

theorem Quietly.bind {a : α} {r : Except ε β} (hm : Quietly s m (.ok a)) (hk : Quietly s (k a) r) :
    Quietly s (m >>= k) r := by
  intro l r' t hrun
  obtain ⟨l₁, r₁, u, l₂, rfl, hfirst, hrest⟩ := Program.Exchanges.of_bind hrun
  obtain ⟨rfl, rfl, hquiet⟩ := hm _ _ _ hfirst
  obtain ⟨hr, ht, hquiet'⟩ := hk _ _ _ hrest
  exact ⟨hr, ht, List.forall_mem_append.mpr ⟨hquiet, hquiet'⟩⟩

theorem Quietly.bind_error {e : ε} (hm : Quietly s m (.error e)) :
    Quietly s (m >>= k) (.error e) := by
  intro l r' t hrun
  obtain ⟨l₁, r₁, u, l₂, rfl, hfirst, hrest⟩ := Program.Exchanges.of_bind hrun
  obtain ⟨rfl, rfl, hquiet⟩ := hm _ _ _ hfirst
  obtain ⟨rfl, rfl, rfl⟩ := hrest
  rw [List.append_nil]
  exact ⟨rfl, rfl, hquiet⟩

end Quietly

/-! ### Relations that keep to their own fields -/

namespace Relation

/-- **Relations with fields of their own**, for their ids and for their copies. -/
structure Apart (rs : List Relation) : Prop where
  ids : (rs.map idField).Nodup
  copies : (rs.map navigation).Nodup
  across : ∀ r ∈ rs, ∀ r' ∈ rs, r.idField ≠ r'.navigation

variable {rs : List Relation} {viewer : Viewer} {s t : Store} {prune : Bool} {r r' : Relation}
  {d d' : Document} {name : String}

theorem Apart.tail (h : Apart (r :: rs)) : Apart rs where
  ids := (List.nodup_cons.mp h.ids).2
  copies := (List.nodup_cons.mp h.copies).2
  across x hx y hy := h.across x (List.mem_cons_of_mem r hx) y (List.mem_cons_of_mem r hy)

theorem Apart.avoids_later (h : Apart (r :: rs)) (hr : r' ∈ rs)
    (hname : name = r'.idField ∨ name = r'.navigation) : r.Avoids ⟨prune, true⟩ name := by
  have hid : r'.idField ≠ r.idField := fun heq =>
    (List.nodup_cons.mp h.ids).1 (heq ▸ List.mem_map_of_mem hr)
  have hcopies : r'.navigation ≠ r.navigation := fun heq =>
    (List.nodup_cons.mp h.copies).1 (heq ▸ List.mem_map_of_mem hr)
  have hmem : r' ∈ r :: rs := List.mem_cons_of_mem r hr
  rcases hname with rfl | rfl
  · exact ⟨hid, fun _ => h.across r' hmem r List.mem_cons_self⟩
  · exact ⟨(h.across r List.mem_cons_self r' hmem).symm, fun _ => hcopies⟩

theorem Apart.later_avoid (h : Apart (r :: rs)) (hr : r' ∈ rs)
    (hname : name = r.idField ∨ name = r.navigation) : r'.Avoids ⟨prune, true⟩ name := by
  have hid : r.idField ≠ r'.idField := fun heq =>
    (List.nodup_cons.mp h.ids).1 (heq ▸ List.mem_map_of_mem hr)
  have hcopies : r.navigation ≠ r'.navigation := fun heq =>
    (List.nodup_cons.mp h.copies).1 (heq ▸ List.mem_map_of_mem hr)
  have hmem : r' ∈ r :: rs := List.mem_cons_of_mem r hr
  rcases hname with rfl | rfl
  · exact ⟨hid, fun _ => h.across r List.mem_cons_self r' hmem⟩
  · exact ⟨(h.across r' hmem r List.mem_cons_self).symm, fun _ => hcopies⟩

theorem Apart.idField_ne (h : Apart rs) (hr : r ∈ rs) : r.idField ≠ r.navigation :=
  h.across r hr r hr

theorem value?_followedIn_of_avoids (h : r.Avoids ⟨prune, true⟩ name) :
    (r.followedIn viewer s prune d).value? name = d.value? name := by
  rw [followedIn, hydratedIn, Document.value?_put_of_ne _ _ (h.2 rfl)]
  cases prune with
  | false => rfl
  | true => exact value?_prunedIn_of_ne h.1

theorem value?_foldl_followedIn_of_avoids (h : ∀ r ∈ rs, r.Avoids ⟨prune, true⟩ name)
    (d : Document) :
    (rs.foldl (followedIn viewer s prune) d).value? name = d.value? name := by
  induction rs generalizing d with
  | nil => rfl
  | cons r rs ih =>
    rw [List.foldl_cons, ih fun x hx => h x (List.mem_cons_of_mem r hx),
      value?_followedIn_of_avoids (h r List.mem_cons_self)]

theorem value?_followedIn_idField (h : r.idField ≠ r.navigation) (d : Document) :
    (r.followedIn viewer s true d).value? r.idField = (r.prunedIn s d).value? r.idField := by
  rw [followedIn, hydratedIn, Document.value?_put_of_ne _ _ h]
  rfl

theorem value?_followedIn_navigation (d : Document) :
    (r.followedIn viewer s true d).value? r.navigation =
      some (r.navigationValue (r.shownIn viewer.policy viewer.caller s d)) := by
  rw [followedIn, hydratedIn, Document.value?_put_self, if_pos rfl, shownIn_prunedIn]

theorem shownIn_congr (h : d'.value? r.idField = d.value? r.idField) (a : AccessPolicy)
    (caller : Caller) : r.shownIn a caller s d' = r.shownIn a caller s d := by
  rw [shownIn, shownIn, targetIds_congr h]

theorem decided_congr (h : d'.value? r.idField = d.value? r.idField) :
    r.Decided viewer s d' ↔ r.Decided viewer s d := by
  rw [Decided, Decided, targetIds_congr h]

/-- **Each relation is followed by itself.** -/
theorem value?_foldl_followedIn (h : Apart rs) (hr : r ∈ rs) (d : Document) :
    (rs.foldl (followedIn viewer s true) d).value? r.idField = (r.prunedIn s d).value? r.idField ∧
    (rs.foldl (followedIn viewer s true) d).value? r.navigation =
      some (r.navigationValue (r.shownIn viewer.policy viewer.caller s d)) := by
  induction rs generalizing d with
  | nil => cases hr
  | cons r' rs ih =>
    rw [List.foldl_cons]
    rcases List.mem_cons.mp hr with rfl | hr'
    · rw [value?_foldl_followedIn_of_avoids fun x hx => h.later_avoid hx (.inl rfl),
        value?_foldl_followedIn_of_avoids fun x hx => h.later_avoid hx (.inr rfl)]
      exact ⟨value?_followedIn_idField (h.idField_ne hr) d, value?_followedIn_navigation d⟩
    · have hsame : (r'.followedIn viewer s true d).value? r.idField = d.value? r.idField :=
        value?_followedIn_of_avoids (h.avoids_later hr' (.inl rfl))
      obtain ⟨hid, hcopies⟩ := ih h.tail hr' (r'.followedIn viewer s true d)
      exact ⟨hid.trans (Schema.prunedIn_congr hsame), by rw [hcopies, shownIn_congr hsame]⟩

theorem decidedAll_iff (h : Apart rs) (d : Document) :
    DecidedAll viewer s prune rs d ↔ ∀ r ∈ rs, r.Decided viewer s d := by
  induction rs generalizing d with
  | nil => exact iff_of_true trivial nofun
  | cons r rs ih =>
    rw [DecidedAll, List.forall_mem_cons, ih h.tail]
    refine and_congr_right fun _ => forall₂_congr fun x hx => decided_congr ?_
    exact value?_followedIn_of_avoids (h.avoids_later hx (.inl rfl))

/-- **What is reported** can be told from the document as it was. -/
theorem followedChanges_eq (h : Apart rs) (d : Document) {changes : Changes}
    (hnew : ∀ r ∈ rs, r.idField ∉ Document.keys changes) :
    followedChanges viewer s true rs d changes = changes ++ prunedChanges s rs d := by
  induction rs generalizing d changes with
  | nil => simp [followedChanges, prunedChanges]
  | cons r rs ih =>
    have hrest : prunedChanges s rs (r.followedIn viewer s true d) = prunedChanges s rs d :=
      prunedChanges_congr fun x hx =>
        value?_followedIn_of_avoids (h.avoids_later hx (.inl rfl))
    have hlater : ∀ x ∈ rs, x.idField ∉ Document.keys changes := fun x hx =>
      hnew x (List.mem_cons_of_mem r hx)
    rw [followedChanges, if_pos rfl, prunedChanges, List.filterMap_cons]
    cases hr : r.prunedChange s d with
    | none =>
      rw [ih h.tail _ hlater, hrest]
      rfl
    | some v =>
      have hput : Document.put changes r.idField v = changes ++ [(r.idField, v)] :=
        Document.put_of_notMem (hnew r List.mem_cons_self)
      have hlater' : ∀ x ∈ rs, x.idField ∉ Document.keys (Document.put changes r.idField v) := by
        intro x hx hm
        have havoids : r.Avoids ⟨true, true⟩ x.idField := h.avoids_later hx (.inl rfl)
        exact (Document.mem_keys_put.mp hm).elim havoids.1 (hlater x hx)
      rw [ih h.tail _ hlater', hrest, hput, List.append_assoc]
      rfl

/-- **Setting what is reported** prunes. -/
theorem setAll_prunedChanges (hnodup : (rs.map idField).Nodup)
    (hdotless : ∀ r ∈ rs, '.' ∉ r.idField.toList) (d : Document) :
    Document.setAll (prunedChanges s rs d) d = rs.foldl (prunedIn s) d := by
  induction rs generalizing d with
  | nil => rfl
  | cons r rs ih =>
    rw [List.map_cons, List.nodup_cons] at hnodup
    have hrest : prunedChanges s rs (r.prunedIn s d) = prunedChanges s rs d :=
      prunedChanges_congr fun x hx =>
        value?_prunedIn_of_ne fun heq => hnodup.1 (heq ▸ List.mem_map_of_mem hx)
    rw [List.foldl_cons, ← ih hnodup.2 (fun x hx => hdotless x (List.mem_cons_of_mem r hx)), hrest]
    by_cases hlen : (r.keptIn s d).length = (r.targetIds d).length
    · rw [prunedChanges, List.filterMap_cons, prunedChange, prunedIn, if_pos hlen, if_pos hlen]
      rfl
    · rw [prunedChanges, List.filterMap_cons, prunedChange, prunedIn, if_neg hlen, if_neg hlen,
        ← Document.writePath_of_dotless d _ (hdotless r List.mem_cons_self)]
      rfl

end Relation

/-! ### Following all relations with pruning -/

namespace Schema

variable {sc : Schema} {viewer : Viewer} {s : Store} {r : Relation} {d : Document} {name : String}

theorem apart (hs : sc.Lawful) (hl : sc.Linked)
    (hcopies : (sc.relations.map Relation.navigation).Nodup) : Relation.Apart sc.relations where
  ids := hl.nodup
  copies := hcopies
  across r hr r' hr' := by
    obtain ⟨f, hf, hrole, hname⟩ := hs.references r hr
    obtain ⟨g, hg, hrole', hname'⟩ := hl.navigation r' hr'
    rw [← hname, ← hname']
    exact hs.name_ne hf hg (by rw [hrole, hrole']; exact FieldRole.noConfusion)

/-- **A document as a look-up makes it**: pruned, and with the copies that the viewer is shown. -/
def lookedUp (sc : Schema) (viewer : Viewer) (s : Store) (d : Document) : Document :=
  sc.relations.foldl (Relation.followedIn viewer s true) d

theorem value?_lookedUp (h : Relation.Apart sc.relations)
    (hname : ∀ r ∈ sc.relations, name ≠ r.navigation) (d : Document) :
    (sc.lookedUp viewer s d).value? name = (sc.prunedIn s none d).value? name := by
  by_cases hid : ∃ r ∈ sc.relations, name = r.idField
  · obtain ⟨r, hr, rfl⟩ := hid
    have hpruned := value?_foldl_prunedIn_self (s := s) h.ids hr d
    exact (Relation.value?_foldl_followedIn h hr d).1.trans hpruned.symm
  · have hne : ∀ r ∈ sc.relations, name ≠ r.idField := fun r hr heq => hid ⟨r, hr, heq⟩
    exact (Relation.value?_foldl_followedIn_of_avoids
      (fun r hr => ⟨hne r hr, fun _ => hname r hr⟩) d).trans (value?_foldl_prunedIn hne d).symm

theorem value?_lookedUp_navigation (h : Relation.Apart sc.relations) (hr : r ∈ sc.relations)
    (d : Document) : (sc.lookedUp viewer s d).value? r.navigation =
      some (r.navigationValue (r.shownIn viewer.policy viewer.caller s d)) :=
  (Relation.value?_foldl_followedIn h hr d).2

/-- **A look-up prunes and fills in the copies**, if the policy decides about all that the document
refers to. -/
theorem tells_lookUp (h : Relation.Apart sc.relations) (hk : s.Keyed) {F : Prop}
    (hF : ¬ (∀ r ∈ sc.relations, r.Decided viewer s d) → F) :
    Tells .calm s F (fun out => (∀ r ∈ sc.relations, r.Decided viewer s d) ∧
        out = (sc.lookedUp viewer s d, sc.prunedFields s none d))
      (sc.resolve viewer ⟨true, true⟩ none d) := by
  have hchanges : Relation.followedChanges viewer s true sc.relations d [] =
      sc.prunedFields s none d :=
    Relation.followedChanges_eq h d fun _ _ => List.not_mem_nil
  refine (Relation.tells_resolveAll nofun nofun hk fun hnot => hF ?_).mono fun out hout => ?_
  · exact fun hdecided => hnot ((Relation.decidedAll_iff h d).mpr hdecided)
  · exact ⟨(Relation.decidedAll_iff h d).mp hout.1, hout.2.trans (congrArg (Prod.mk _) hchanges)⟩

theorem setAll_prunedFields (hs : sc.Lawful) (hl : sc.Linked) (s : Store) (d : Document) :
    Document.setAll (sc.prunedFields s none d) d = sc.prunedIn s none d := by
  refine Relation.setAll_prunedChanges hl.nodup (fun r hr => ?_) d
  obtain ⟨f, hf, -, hname⟩ := hs.references r hr
  exact hname ▸ hs.dotless f hf

end Schema

/-! ### Writing back -/

namespace Collection

variable {E : Type} {c : Collection E} {caller : Caller} {s t : Store} {id : Uuid}
  {d d' : Document} {field name : String} {report : ReadReport E}

/-- **An undisturbed look-up writes back what it reports**, if there is anything to report. -/
theorem runs_persistPruned (hs : c.schema.Lawful) (hf : c.schema.versionName? = some field)
    (hcounted : Counted field (s.entries c.name)) (hd : (id, d) ∈ s.entries c.name)
    (hpersist : c.settings.persistPrunedReferences = true) {changes : Changes} {place : String}
    {r : Except Failure Unit}
    (h : (c.persistPruned id (c.knownVersion d) changes place).run.Runs .calm s r t) :
    r = .ok () ∧ t = if changes = [] then s else c.writtenTo s id d changes := by
  rw [persistPruned, hpersist, Bool.and_true] at h
  by_cases hempty : changes = []
  · rw [hempty] at h
    rw [if_pos hempty]
    exact h
  · rw [if_pos (by simpa using hempty)] at h
    obtain ⟨answer, u, hwrite, rfl, rfl⟩ := (Program.runs_bind _ _).mp h
    have hmeets : (c.unchangedSince id (c.knownVersion d)).1.holds d = true :=
      (unchangedSince_holds_iff hs hf hcounted hcounted hd hd).mpr ⟨rfl, rfl⟩
    rw [if_neg hempty]
    exact ⟨rfl, (runs_writeUpdate hd hmeets hwrite).2⟩

/-- **What a look-up leaves.** The document no longer refers to missing entities; all else is as it
was, but the version of a document that was pruned. -/
structure Settles (c : Collection E) (s : Store) (id : Uuid) (d : Document)
    (report : ReadReport E) (d' : Document) (t : Store) : Prop where
  left : (id, d') ∈ t.entries c.name
  /-- What the document refers to exists. -/
  exist : ∀ r ∈ c.schema.relations, ∀ target ∈ r.targetIds d', t.Has r.target target
  /-- The ids of entities that exist are left, in their order and as often as before. -/
  kept : ∀ r ∈ c.schema.relations, r.targetIds d' = (r.targetIds d).filter (s.Has r.target ·)
  /-- The fields that have changed are reported, and no others. -/
  reported : ∀ name, name ∈ report.changedFields ↔
    ∃ r ∈ c.schema.relations, name = r.idField ∧ r.targetIds d' ≠ r.targetIds d
  /-- The version counts the write, as far as versions can be counted. -/
  version : ∀ field, c.schema.versionName? = some field → ∃ v, d.value? field = some (.int64 v) ∧
    (report.changedFields = [] → d'.value? field = some (.int64 v)) ∧
    (report.changedFields ≠ [] → v.toInt ≤ 2 ^ 53 → d'.value? field = some (.int64 (v + 1)))
  same : ∀ name, name ∉ report.changedFields → c.schema.versionName? ≠ some name →
    d'.value? name = d.value? name
  /-- If nothing is reported, nothing was written. -/
  unwritten : report.changedFields = [] → t = s
  others : ∀ name k x, ¬ (name = c.name ∧ k = id) →
    ((k, x) ∈ t.entries name ↔ (k, x) ∈ s.entries name)

theorem has_iff_of_others (hd : (id, d) ∈ s.entries c.name) (hd' : (id, d') ∈ t.entries c.name)
    (others : ∀ name k x, ¬ (name = c.name ∧ k = id) →
      ((k, x) ∈ t.entries name ↔ (k, x) ∈ s.entries name)) (name : String) (k : Uuid) :
    t.Has name k ↔ s.Has name k := by
  rw [Store.has_iff, Store.has_iff]
  by_cases hsame : name = c.name ∧ k = id
  · obtain ⟨rfl, rfl⟩ := hsame
    exact iff_of_true ⟨d', hd'⟩ ⟨d, hd⟩
  · exact exists_congr fun x => others name k x hsame

theorem versionName?_ne_idField (hs : c.schema.Lawful) {r : Relation}
    (hr : r ∈ c.schema.relations) : c.schema.versionName? ≠ some r.idField := by
  obtain ⟨g, hg, hrole, hname⟩ := hs.references r hr
  exact hname ▸ versionName?_ne_name hs hg (by rw [hrole]; exact FieldRole.noConfusion)

theorem reference_of_pruned (hs : c.schema.Lawful) {p : String × Value}
    (hp : p ∈ c.schema.prunedFields s none d) : c.schema.Permits p.1 ∧ '.' ∉ p.1.toList := by
  obtain ⟨r, hr, hname, -⟩ := Relation.mem_prunedChanges.mp hp
  obtain ⟨g, hg, -, hfield⟩ := hs.references r hr
  rw [hname]
  exact ⟨hs.permits_reference hr, hfield ▸ hs.dotless g hg⟩

/-- **What is reported** are the fields of relations that have lost ids. -/
theorem mem_keys_prunedFields (hl : c.schema.Linked) :
    name ∈ Document.keys (c.schema.prunedFields s none d) ↔
      ∃ r ∈ c.schema.relations, name = r.idField ∧
        r.targetIds (c.schema.prunedIn s none d) ≠ r.targetIds d := by
  have hpruned : c.schema.Pruned s none d _ := Schema.pruned hl.nodup s none d
  constructor
  · intro hkey
    obtain ⟨p, hp, rfl⟩ := List.mem_map.mp hkey
    obtain ⟨r, hr, hname, -⟩ := Relation.mem_prunedChanges.mp hp
    exact ⟨r, hr, hname, (hpruned.named r hr).mp (hname ▸ hkey)⟩
  · rintro ⟨r, hr, rfl, hne⟩
    exact (hpruned.named r hr).mpr hne

/-- **A document that is pruned in place**: but for the version it is the pruned one, and the
version is the next one if there was anything to prune. -/
structure PrunedTo (c : Collection E) (s : Store) (id : Uuid) (d d' : Document) (t : Store) :
    Prop where
  left : (id, d') ∈ t.entries c.name
  others : ∀ name k x, ¬ (name = c.name ∧ k = id) →
    ((k, x) ∈ t.entries name ↔ (k, x) ∈ s.entries name)
  version : ∀ field, c.schema.versionName? = some field → ∃ v, d.value? field = some (.int64 v) ∧
    d'.value? field =
      some (.int64 (if c.schema.prunedFields s none d = [] then v else nextVersion v))
  value : ∀ name, c.schema.versionName? ≠ some name →
    d'.value? name = (c.schema.prunedIn s none d).value? name
  regives : c.schema.Regives d d'

theorem prunedTo_self (hs : c.schema.Lawful) (hl : c.schema.Linked)
    (hf : c.schema.versionName? = some field) (hcounted : Counted field (s.entries c.name))
    (hd : (id, d) ∈ s.entries c.name) (hnone : c.schema.prunedFields s none d = []) :
    c.PrunedTo s id d d s where
  left := hd
  others _ _ _ _ := Iff.rfl
  version field' hf' := by
    obtain rfl : field = field' := Option.some.inj (hf.symm.trans hf')
    obtain ⟨v, hv, -⟩ := hcounted.version _ hd
    exact ⟨v, hv, by rw [if_pos hnone, hv]⟩
  value name _ := by rw [← Schema.setAll_prunedFields hs hl s d, hnone]; rfl
  regives := .refl d

/-- **Writing back what was pruned** leaves the pruned document. -/
theorem prunedTo_written (hs : c.schema.Lawful) (hl : c.schema.Linked)
    (hf : c.schema.versionName? = some field)
    (hcounted : ∀ name, Counted field (s.entries name)) (hd : (id, d) ∈ s.entries c.name)
    (hsome : c.schema.prunedFields s none d ≠ []) :
    ∃ d', c.PrunedTo s id d d' (c.writtenTo s id d (c.schema.prunedFields s none d)) := by
  have hk : s.Keyed := fun name => (hcounted name).toKeyed
  have hset := Schema.setAll_prunedFields hs hl s d
  have hmeets : (c.unchangedSince id (c.knownVersion d)).1.holds d = true :=
    (unchangedSince_holds_iff hs hf (hcounted _) (hcounted _) hd hd).mpr ⟨rfl, rfl⟩
  refine ⟨_, written_of_meets hk hd ⟨_, hd, hmeets⟩ _, fun _ _ _ => mem_writtenTo_of_ne hk,
    fun field' hf' => ?_, fun name hname => ?_, ?_⟩
  · obtain rfl : field = field' := Option.some.inj (hf.symm.trans hf')
    obtain ⟨v, hv, h0, hb⟩ := (hcounted _).version _ hd
    refine ⟨v, hv, ?_⟩
    rw [if_neg hsome]
    exact value?_versioned_next hs hf rfl (fun p hp => (reference_of_pruned hs hp).1) hv h0 hb
  · rw [value?_written_of_ne hs hname, hset]
  · have hgiven := regives_versioned (c := c) hs (c.schema.prunedFields s none d) d
    rw [hset] at hgiven
    exact (Schema.Regives.prunedIn hs s none d).trans hgiven

theorem PrunedTo.value?_idField (hs : c.schema.Lawful) (h : c.PrunedTo s id d d' t) {r : Relation}
    (hr : r ∈ c.schema.relations) :
    d'.value? r.idField = (c.schema.prunedIn s none d).value? r.idField :=
  h.value _ (versionName?_ne_idField hs hr)

/-- **A document that is pruned in place** has settled, with the report that names what was
pruned. -/
theorem PrunedTo.settles (hs : c.schema.Lawful) (hl : c.schema.Linked)
    (h : c.PrunedTo s id d d' t) (hd : (id, d) ∈ s.entries c.name)
    (hreport : report.changedFields = Document.keys (c.schema.prunedFields s none d))
    (hunwritten : c.schema.prunedFields s none d = [] → t = s) : c.Settles s id d report d' t := by
  have hpruned : c.schema.Pruned s none d _ := Schema.pruned hl.nodup s none d
  have hempty : report.changedFields = [] ↔ c.schema.prunedFields s none d = [] := by
    rw [hreport]
    exact List.map_eq_nil_iff
  have htargets : ∀ r ∈ c.schema.relations,
      r.targetIds d' = r.targetIds (c.schema.prunedIn s none d) :=
    fun r hr => Relation.targetIds_congr (h.value?_idField hs hr)
  have hkept : ∀ r ∈ c.schema.relations,
      r.targetIds d' = (r.targetIds d).filter (s.Has r.target ·) :=
    fun r hr => (htargets r hr).trans (hpruned.kept r hr)
  refine ⟨h.left, fun r hr target htarget => ?_, hkept, fun name => ?_, fun field hf => ?_,
    fun name hname hne => ?_, fun hnil => hunwritten (hempty.mp hnil), h.others⟩
  · rw [hkept r hr, List.mem_filter, decide_eq_true_iff] at htarget
    exact (has_iff_of_others hd h.left h.others _ _).mpr htarget.2
  · rw [hreport, mem_keys_prunedFields hl]
    exact exists_congr fun r => and_congr_right fun hr => by rw [htargets r hr]
  · obtain ⟨v, hv, hv'⟩ := h.version field hf
    refine ⟨v, hv, fun hnil => ?_, fun hsome hcountable => ?_⟩
    · rw [hv', if_pos (hempty.mp hnil)]
    · rw [hv', if_neg (hempty.not.mp hsome), nextVersion, if_pos hcountable]
  · rw [hreport] at hname
    exact (h.value name hne).trans (hpruned.others name hname)

/-- **What a look-up wrote** has pruned the document in place. -/
theorem prunedTo_of_written (hs : c.schema.Lawful) (hl : c.schema.Linked)
    (hf : c.schema.versionName? = some field)
    (hcounted : ∀ name, Counted field (s.entries name)) (hd : (id, d) ∈ s.entries c.name)
    (ht : t = if c.schema.prunedFields s none d = [] then s
      else c.writtenTo s id d (c.schema.prunedFields s none d)) :
    ∃ d', c.PrunedTo s id d d' t := by
  by_cases hchanges : c.schema.prunedFields s none d = []
  · rw [ht, if_pos hchanges]
    exact ⟨d, prunedTo_self hs hl hf (hcounted _) hd hchanges⟩
  · rw [ht, if_neg hchanges]
    exact prunedTo_written hs hl hf hcounted hd hchanges

/-! ### Looking up -/

/-- The report of a look-up, read from the document that it made. -/
def reportOf (c : Collection E) (d : Document) (changes : Changes) : OperationM (ReadReport E) := do
  let e ← OperationM.inPlace (c.place "get") (c.ofDocument d)
  return ⟨e, changes.keys⟩

/-- What remains to be done when the document has been loaded. -/
def lookUp (c : Collection E) (caller : Caller) (id : Uuid) (d : Document) :
    OperationM (ReadReport E) := do
  let (resolved, changes) ← OperationM.inPlace (c.place "get")
    (c.schema.resolve (c.viewer caller) ⟨true, true⟩ none d)
  c.persistPruned id (c.knownVersion d) changes (c.place "get")
  c.reportOf resolved changes

theorem get_eq (c : Collection E) (caller : Caller) (id : Uuid) :
    c.get caller id true = (c.load caller id (c.place "get") >>= c.lookUp caller id) := rfl

theorem quiet_reportOf (d : Document) (changes : Changes) : (c.reportOf d changes).run.Quiet :=
  always_bindE (always_inPlace (always_ofExcept _)) fun _ => always_pureE _

theorem surely_reportOf {e : E} (he : c.kind.ofDocument? d = some e) (changes : Changes) :
    Surely s (c.reportOf d changes) (.ok ⟨e, Document.keys changes⟩) := by
  have hread : Tells .calm s False (· = e) (c.ofDocument d) := tells_ofExcept (by rw [he]) rfl
  exact ((hread.inPlace _).surely).bind fun _ _ => Iff.rfl

theorem tells_reportOf (d : Document) (changes : Changes) :
    Tells .calm s True (fun report => c.kind.ofDocument? d = some report.entity ∧
      report.changedFields = Document.keys changes) (c.reportOf d changes) :=
  ((tells_ofDocument d).inPlace _).bind fun _ he => tells_pure ⟨he, rfl⟩

/-- A look-up that succeeds knows of all that the document refers to whether it is shown. -/
theorem decided_of_lookUp (hapart : Relation.Apart c.schema.relations) (hk : s.Keyed)
    (h : (c.lookUp caller id d).run.Runs .calm s (.ok report) t) :
    ∀ r ∈ c.schema.relations, r.Decided (c.viewer caller) s d := by
  obtain ⟨_, ⟨hdecided, -⟩, -⟩ :=
    ((Schema.tells_lookUp hapart hk fun _ => trivial).inPlace (c.place "get")).ok h
  exact hdecided

theorem surely_resolved (hapart : Relation.Apart c.schema.relations) (hk : s.Keyed)
    (hdecided : ∀ r ∈ c.schema.relations, r.Decided (c.viewer caller) s d) :
    Surely s (OperationM.inPlace (c.place "get")
        (c.schema.resolve (c.viewer caller) ⟨true, true⟩ none d))
      (.ok (c.schema.lookedUp (c.viewer caller) s d, c.schema.prunedFields s none d)) :=
  (((Schema.tells_lookUp hapart hk (absurd hdecided)).mono fun _ hout => hout.2).inPlace _).surely

/-- **How a look-up goes** undisturbed: what was pruned is written back, and then the entity is
read. -/
theorem runs_lookUp (hs : c.schema.Lawful) (hapart : Relation.Apart c.schema.relations)
    (hf : c.schema.versionName? = some field) (hcounted : ∀ name, Counted field (s.entries name))
    (hd : (id, d) ∈ s.entries c.name)
    (hpersist : c.settings.persistPrunedReferences = true)
    (hdecided : ∀ r ∈ c.schema.relations, r.Decided (c.viewer caller) s d)
    {r : Except Failure (ReadReport E)}
    (h : (c.lookUp caller id d).run.Runs .calm s r t) :
    (t = if c.schema.prunedFields s none d = [] then s
      else c.writtenTo s id d (c.schema.prunedFields s none d)) ∧
    (c.reportOf (c.schema.lookedUp (c.viewer caller) s d)
      (c.schema.prunedFields s none d)).run.Runs .calm t r t := by
  have hk : s.Keyed := fun name => (hcounted name).toKeyed
  have hrest := (surely_resolved hapart hk hdecided).rest h
  rcases (runs_bindE _ _).mp hrest with ⟨_, u, hwrite, hread⟩ | ⟨e, hwrite, -⟩
  · obtain ⟨-, hu⟩ := runs_persistPruned hs hf (hcounted _) hd hpersist hwrite
    obtain rfl : t = u := hread.eq_of_quiet (quiet_reportOf _ _)
    exact ⟨hu, hread⟩
  · cases (runs_persistPruned hs hf (hcounted _) hd hpersist hwrite).1

section Undisturbed

variable (hs : c.schema.Lawful) (hapart : Relation.Apart c.schema.relations)
  (hf : c.schema.versionName? = some field) (hcounted : ∀ name, Counted field (s.entries name))
  (hd : (id, d) ∈ s.entries c.name) (hsees : c.policy.Sees caller c.name d)
  (hpersist : c.settings.persistPrunedReferences = true)

include hs hapart hf hcounted hd hsees hpersist

/-- **A look-up succeeds** if the policy decides and the entity can be read. -/
theorem ok_of_decided (hdecided : ∀ r ∈ c.schema.relations, r.Decided (c.viewer caller) s d)
    (hread : (c.kind.ofDocument? (c.schema.lookedUp (c.viewer caller) s d)).isSome = true)
    {answer : Except Failure (ReadReport E)}
    (h : (c.get caller id true).run.Runs .calm s answer t) : ∃ report, answer = .ok report := by
  obtain ⟨e, he⟩ := Option.isSome_iff_exists.mp hread
  have hk : s.Keyed := fun name => (hcounted name).toKeyed
  rw [get_eq] at h
  have hlookUp := (tells_load_of_sees hk hd hsees _).surely.rest h
  have hreport := (runs_lookUp hs hapart hf hcounted hd hpersist hdecided hlookUp).2
  exact ⟨_, ((surely_reportOf he _ _ _).mp hreport).1⟩

/-- **A look-up that succeeds** has read the entity from the document that it made, and it settles
the document that is stored. -/
theorem settles_of_get (hl : c.schema.Linked)
    (h : (c.get caller id true).run.Runs .calm s (.ok report) t) :
    (∀ r ∈ c.schema.relations, r.Decided (c.viewer caller) s d) ∧
      c.kind.ofDocument? (c.schema.lookedUp (c.viewer caller) s d) = some report.entity ∧
      ∃ d', c.Settles s id d report d' t ∧ c.PrunedTo s id d d' t := by
  have hk : s.Keyed := fun name => (hcounted name).toKeyed
  rw [get_eq] at h
  have hlookUp := (tells_load_of_sees hk hd hsees _).surely.rest h
  have hdecided := decided_of_lookUp hapart hk hlookUp
  obtain ⟨hwritten, hreport⟩ := runs_lookUp hs hapart hf hcounted hd hpersist hdecided hlookUp
  obtain ⟨-, he, hkeys⟩ := tells_reportOf _ _ _ _ hreport
  obtain ⟨d', hpruned⟩ := prunedTo_of_written hs hl hf hcounted hd hwritten
  refine ⟨hdecided, he, d', hpruned.settles hs hl hd hkeys fun hnone => ?_, hpruned⟩
  rw [hwritten, if_pos hnone]

end Undisturbed

/-- **A look-up that changes nothing**: when all that the document refers to exists, the entity is
read quietly. -/
theorem quietly_get (hapart : Relation.Apart c.schema.relations) (hk : s.Keyed)
    (hd : (id, d) ∈ s.entries c.name) (hsees : c.policy.Sees caller c.name d)
    (hexist : ∀ r ∈ c.schema.relations, ∀ target ∈ r.targetIds d, s.Has r.target target)
    (hdecided : ∀ r ∈ c.schema.relations, r.Decided (c.viewer caller) s d) {e : E}
    (he : c.kind.ofDocument? (c.schema.lookedUp (c.viewer caller) s d) = some e) :
    Quietly s (c.get caller id true) (.ok ⟨e, []⟩) := by
  have hnone : c.schema.prunedFields s none d = [] := by
    refine List.filterMap_eq_nil_iff.mpr fun r hr => ?_
    rw [Relation.prunedChange_eq_none_iff.mpr, Option.map_none]
    rw [Relation.keptIn_eq]
    exact List.filter_eq_self.mpr fun id hid => decide_eq_true (hexist r hr id hid)
  have hload : Quietly s (c.load caller id (c.place "get")) (.ok d) :=
    (tells_load_of_sees hk hd hsees _).surely.quietly (c.quiet_load caller id _)
  have hresolve := (surely_resolved hapart hk hdecided).quietly
    (always_inPlace (c.schema.quiet_resolve _ _ _ _))
  rw [get_eq]
  refine hload.bind (hresolve.bind ?_)
  rw [hnone]
  exact (surely_reportOf he []).quietly (quiet_reportOf _ _)

/-- **What the filter hides** quietly looks missing. -/
theorem quietly_get_hidden (hk : s.Keyed) (hd : (id, d) ∈ s.entries c.name)
    (hidden : Filter.admits (c.policy.visibility c.name caller) d = false) :
    Quietly s (c.get caller id true) (.error (.missing c.name id)) :=
  ((surely_load_of_hidden hk hd hidden _).quietly (c.quiet_load caller id _)).bind_error

/-! ### Looking up again -/

namespace Settles

variable {r : Relation} {viewer : Viewer} (h : c.Settles s id d report d' t)
  (hd : (id, d) ∈ s.entries c.name)

include h hd

theorem has_iff (name : String) (k : Uuid) : t.Has name k ↔ s.Has name k :=
  has_iff_of_others hd h.left h.others name k

/-- What the policy has decided about before, it decides about again. -/
theorem decided (hr : r ∈ c.schema.relations) (hdecided : r.Decided viewer s d) :
    r.Decided viewer t d' := by
  intro target htarget hhas
  rw [h.kept r hr] at htarget
  exact hdecided target (List.mem_filter.mp htarget).1 ((h.has_iff hd _ _).mp hhas)

/-- **What is shown again** was shown before, or it is the document itself. -/
theorem mem_shownIn (hk : s.Keyed) (ht : t.Keyed) (hr : r ∈ c.schema.relations) {a : AccessPolicy}
    {x : Document} (hx : x ∈ r.shownIn a caller t d') :
    r.target = c.name ∧ x = d' ∨ x ∈ r.shownIn a caller s d := by
  obtain ⟨target, htarget, hfound⟩ := List.mem_filterMap.mp hx
  obtain ⟨hids, haccepts⟩ := List.mem_filter.mp htarget
  have hstored := ((ht r.target).document?_eq_some).mp hfound
  by_cases hself : r.target = c.name ∧ target = id
  · obtain ⟨hname, rfl⟩ := hself
    rw [hname] at hstored
    exact .inl ⟨hname, Entries.eq_of_mem (ht c.name).nodup hstored h.left⟩
  · rw [h.kept r hr] at hids
    have hbefore := ((hk r.target).document?_eq_some).mpr ((h.others _ _ _ hself).mp hstored)
    exact .inr (List.mem_filterMap.mpr
      ⟨target, List.mem_filter.mpr ⟨(List.mem_filter.mp hids).1, haccepts⟩, hbefore⟩)

end Settles

/-- **After a look-up** the document rests: looking it up once more reports and writes nothing, as
long as the caller sees it. If the filter hides it now, it looks missing. -/
structure Rests (c : Collection E) (caller : Caller) (t : Store) (id : Uuid) (d' : Document) :
    Prop where
  again : Filter.admits (c.policy.visibility c.name caller) d' = true →
    ∃ e, Quietly t (c.get caller id true) (.ok ⟨e, []⟩)
  hidden : Filter.admits (c.policy.visibility c.name caller) d' = false →
    Quietly t (c.get caller id true) (.error (.missing c.name id))

theorem rests (hapart : Relation.Apart c.schema.relations) (hk : s.Keyed) (ht : t.Keyed)
    (hd : (id, d) ∈ s.entries c.name) (hsees : c.policy.Sees caller c.name d)
    (h : c.Settles s id d report d' t)
    (hdecided : ∀ r ∈ c.schema.relations, r.Decided (c.viewer caller) s d)
    (hread : (c.kind.ofDocument? (c.schema.lookedUp (c.viewer caller) t d')).isSome = true) :
    c.Rests caller t id d' where
  again hvisible := by
    obtain ⟨e, he⟩ := Option.isSome_iff_exists.mp hread
    exact ⟨e, quietly_get hapart ht h.left (sees_relinked hk ht hd h.left hsees hvisible) h.exist
      (fun r hr => h.decided hd hr (hdecided r hr)) he⟩
  hidden := quietly_get_hidden ht h.left

end Collection

end Registrar
