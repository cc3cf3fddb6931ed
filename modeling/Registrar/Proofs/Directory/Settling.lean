import Registrar.Proofs.Directory.Columns
import Registrar.Proofs.Directory.Deltas
import Registrar.Proofs.Directory.Identity
import Registrar.Proofs.Directory.Relinking
import Registrar.Proofs.Engine.Referring
import Registrar.Proofs.Engine.Settling

/-!
# Look-ups of the directory

For the three kinds of entities a look-up settles the document that is looked up. Two facts are
needed of the kinds. The entity that is returned is read from the document with its copies, so it
must be told that it can be read, and that the references it has are those that are stored. For the
second the stored documents must have references in the fields of relations. This holds in every
store that is reached, with the exception that `Relation.MayHold` admits.

A look-up may take the document away from the caller who makes it, when the visibility filter asks
about a reference that is pruned. Then the second look-up finds nothing.

* `Column.Restores`, `IsKind.exists_columns`: what is read of a reference is written again.
* `Referring`, `Reached.referring`: documents have references in all stores that are reached.
* `IsKind.isSome_lookedUp`, `IsKind.value?_returned`: the entity that a look-up returns.
* `lookUp_settles`: **look-ups settle**.
-/

namespace Registrar

open Reading

/-! ### Columns of references -/

namespace Column

variable {E : Type} {field : Field} {r : Relation}

/-- **A column restores references**: it writes what it has read of what the field may hold. -/
def Restores (c : Column E) (r : Relation) : Prop :=
  c.field.name = r.idField ∧
    ∀ v, r.MayHold v → ∀ p, c.read (some v) = some p → c.write p = v

theorem restores_many {part : E → List Uuid} (hname : field.name = r.idField)
    (hmany : r.cardinality = .many) :
    (optional field part Value.ofUuids [] (list Form.stored.id)).Restores r := by
  refine ⟨hname, fun v hv p hp => ?_⟩
  rcases hv with hholds | ⟨hone, -⟩
  · rw [Relation.Holds, hmany] at hholds
    obtain ⟨ids, rfl⟩ := hholds
    have hread : list Form.stored.id (Value.ofUuids ids) = some ids :=
      Form.stored.inverts_id.list ids
    obtain rfl : ids = p := Option.some.inj (hread.symm.trans hp)
    rfl
  · rw [hmany] at hone
    cases hone

theorem restores_one {part : E → Option Uuid} (hname : field.name = r.idField)
    (hone : r.cardinality = .one) :
    (optional field part (fun id => (id.map Value.ofUuid).getD .null) none
      (nullable Form.stored.id)).Restores r := by
  refine ⟨hname, fun v hv p hp => ?_⟩
  change nullable Form.stored.id v = some p at hp
  rcases hv with hholds | ⟨-, inner, rfl, hnull⟩
  · rw [Relation.Holds, hone] at hholds
    rcases hholds with rfl | ⟨id, rfl⟩
    · cases hp
      rfl
    · have hread : nullable Form.stored.id (Value.ofUuid id) = some (some id) :=
        Directory.inverts_optionalId (some id)
      obtain rfl : some id = p := Option.some.inj (hread.symm.trans hp)
      rfl
  · rw [nullable, Form.id_null hnull] at hp
    · cases hp
    · intro heq
      cases heq

end Column

namespace EntityKind

variable {E : Type} {k : EntityKind E} {columns : List (Column E)} {d d' : Document} {e : E}

/-- **What was read is written again** in the field of a relation. -/
theorem Tabled.value?_reference (h : k.Tabled columns) {r : Relation} {c : Column E}
    (hc : c ∈ columns) (hrestores : c.Restores r) (he : k.ofDocument? d = some e) {v : Value}
    (hv : d.value? r.idField = some v) (hmay : r.MayHold v) :
    (k.toDocument e).value? r.idField = some v := by
  have hread := h.reads d e he c hc
  have hwrite := h.writes c hc e
  rw [hrestores.1] at hread hwrite
  rw [hv] at hread
  rw [hwrite, hrestores.2 v hmay _ hread]

end EntityKind

namespace Directory

/-! ### The three kinds -/

theorem Book.isSome_of_same {d d' : Document} (h : (kind.ofDocument? d).isSome = true)
    (hsame : ∀ name, d'.value? name = d.value? name) : (kind.ofDocument? d').isSome = true := by
  obtain ⟨e, he⟩ := Option.isSome_iff_exists.mp h
  refine tabled.readable d d' h (fun f _ _ => hsame f.name) fun c hc => ?_
  rw [hsame, tabled.reads d e he c hc, Option.isSome_some]

namespace IsKind

variable {E : Type} {k : EntityKind E} {d d' : Document}

theorem exists_columns (hk : IsKind k) : ∃ columns, k.Tabled columns ∧
    ∀ r ∈ k.schema.relations, ∃ c ∈ columns, c.Restores r := by
  cases hk with
  | book => exact ⟨_, Book.tabled, nofun⟩
  | category =>
    refine ⟨_, Category.tabled, List.forall_mem_cons.mpr ⟨?_, nofun⟩⟩
    exact ⟨_, List.mem_of_getElem? (i := 4) rfl, Column.restores_many rfl rfl⟩
  | contact =>
    refine ⟨_, Contact.tabled, ?_⟩
    simp only [Contact.kind, Contact.schema, List.forall_mem_cons, List.not_mem_nil, false_implies,
      implies_true, and_true]
    exact ⟨⟨_, List.mem_of_getElem? (i := 6) rfl, Column.restores_many rfl rfl⟩,
      ⟨_, List.mem_of_getElem? (i := 7) rfl, Column.restores_one rfl rfl⟩,
      ⟨_, List.mem_of_getElem? (i := 8) rfl, Column.restores_many rfl rfl⟩,
      ⟨_, List.mem_of_getElem? (i := 9) rfl, Column.restores_many rfl rfl⟩⟩

theorem navigations_nodup (hk : IsKind k) :
    (k.schema.relations.map Relation.navigation).Nodup := by
  cases hk <;> decide

theorem apart (hk : IsKind k) : Relation.Apart k.schema.relations :=
  Schema.apart hk.lawful.schema hk.linked hk.navigations_nodup

/-- **The documents of entities have references.** -/
theorem hasReferences (hk : IsKind k) (e : E) :
    k.schema.HasReferences Relation.Holds (k.toDocument e) := by
  cases hk with
  | book => exact nofun
  | category => exact List.forall_mem_cons.mpr ⟨⟨_, rfl, e.phoneBookIds, rfl⟩, nofun⟩
  | contact =>
    simp only [Schema.HasReferences, Contact.kind, Contact.schema, List.forall_mem_cons,
      List.not_mem_nil, false_implies, implies_true, and_true]
    refine ⟨⟨_, rfl, e.record.secretaryIds, rfl⟩, ⟨_, rfl, ?_⟩, ⟨_, rfl, e.record.categoryIds, rfl⟩,
      ⟨_, rfl, e.record.phoneBookIds, rfl⟩⟩
    cases e.record.managerId with
    | none => exact .inl rfl
    | some id => exact .inr ⟨id, rfl⟩

/-- **An entity can be read with its copies**, if they can be read by themselves. -/
theorem isSome_withCopies (hk : IsKind k) (h : (k.ofDocument? d).isSome = true)
    (hsame : ∀ name, name ∉ k.schema.relations.map Relation.navigation →
      d'.value? name = d.value? name)
    (hcopies : ∀ r ∈ k.schema.relations, ∃ shown, (∀ x ∈ shown, ReadableAs r.target x) ∧
      d'.value? r.navigation = some (r.navigationValue shown)) :
    (k.ofDocument? d').isSome = true := by
  cases hk with
  | book => exact Book.isSome_of_same h fun name => hsame name List.not_mem_nil
  | category => exact Category.isSome_withCopies h hsame hcopies
  | contact => exact Contact.isSome_withCopies h hsame hcopies

theorem isSome_regives (hk : IsKind k) (hgiven : k.schema.Regives d d')
    (hd : (k.ofDocument? d).isSome = true) : (k.ofDocument? d').isSome = true := by
  obtain ⟨columns, htable, -⟩ := hk.exists_columns
  exact htable.isSome_regives hgiven hd

theorem readableAs (hk : IsKind k) (h : (k.ofDocument? d).isSome = true) :
    ReadableAs k.collection d := by
  cases hk with
  | book => exact ⟨fun _ => h, fun heq => absurd heq (by decide), fun heq => absurd heq (by decide)⟩
  | category =>
    exact ⟨fun heq => absurd heq (by decide), fun _ => h, fun heq => absurd heq (by decide)⟩
  | contact =>
    exact ⟨fun heq => absurd heq (by decide), fun heq => absurd heq (by decide), fun _ => h⟩

end IsKind

/-! ### References in stores that are reached -/

/-- **All stored documents have references**, as far as no plan has split them. -/
def Referring (s : Store) : Prop :=
  ∀ name id d, (id, d) ∈ s.entries name →
    ∃ sc ∈ schemas, sc.collection = name ∧ sc.HasReferences Relation.MayHold d

theorem Step.referring {x : Step} (h : x.Happens) (hk : x.before.Keyed) (hx : Referring x.before) :
    Referring x.after := by
  obtain ⟨E, k, op, hkind, r, hruns⟩ := h.cases
  intro name id d hd
  by_cases hname : name = k.collection
  · subst hname
    have hall : ∀ id d, (id, d) ∈ x.before.entries k.collection →
        k.schema.HasReferences Relation.MayHold d := by
      intro id d hd
      obtain ⟨sc, hsc, hcollection, hhas⟩ := hx _ id d hd
      exact hkind.eq_schema hsc hcollection ▸ hhas
    have heffect := effect_program (c := x.setup.collection k) hkind.lawful.schema hkind.linked hk
      op hruns
    have hafter := heffect.hasReferences hkind.lawful.schema hkind.linked hkind.dotlessLeaves
      hkind.wholeLists (fun e => (hkind.shaped e).bare) hkind.hasReferences hk hall
    exact ⟨k.schema, hkind.mem_schemas, rfl, hafter id d hd⟩
  · rw [Collection.entries_program (c := x.setup.collection k) hkind.lawful hruns hname] at hd
    exact hx name id d hd

theorem Reached.referring {s : Store} (h : Reached s) : Referring s := by
  have hboth : s.Keyed ∧ Referring s :=
    h.invariant (I := fun s => s.Keyed ∧ Referring s)
      ⟨empty_keyed, fun _ _ _ hd => absurd hd List.not_mem_nil⟩
      fun x happens hx => ⟨x.keyed happens hx.1, x.referring happens hx.1 hx.2⟩
  exact hboth.2

theorem IsKind.hasReferences_stored {E : Type} {k : EntityKind E} (hk : IsKind k) {s : Store}
    (hs : Reached s) {id : Uuid} {d : Document} (hd : (id, d) ∈ s.entries k.collection) :
    k.schema.HasReferences Relation.MayHold d := by
  obtain ⟨sc, hsc, hcollection, hhas⟩ := hs.referring _ id d hd
  exact hk.eq_schema hsc hcollection ▸ hhas

/-! ### What a look-up does -/

namespace IsKind

variable {E : Type} {k : EntityKind E} {s : Store} {d : Document}

/-- **An entity can be read after a look-up**, if it can be read by itself and so can what is
shown. -/
theorem isSome_lookedUp (hk : IsKind k) {viewer : Viewer} (h : (k.ofDocument? d).isSome = true)
    (hcopies : ∀ r ∈ k.schema.relations,
      ∀ x ∈ r.shownIn viewer.policy viewer.caller s d, ReadableAs r.target x) :
    (k.ofDocument? (k.schema.lookedUp viewer s d)).isSome = true := by
  refine hk.isSome_withCopies (hk.isSome_regives (.prunedIn hk.lawful.schema s none d) h)
    (fun name hname => ?_) fun r hr => ?_
  · refine Schema.value?_lookedUp hk.apart (fun r hr heq => hname ?_) d
    exact heq ▸ List.mem_map_of_mem hr
  · exact ⟨_, hcopies r hr, Schema.value?_lookedUp_navigation hk.apart hr d⟩

/-- **The entity that is returned** has the references that are left. -/
theorem value?_returned (hk : IsKind k) (hhas : k.schema.HasReferences Relation.MayHold d)
    {viewer : Viewer} {e : E} (he : k.ofDocument? (k.schema.lookedUp viewer s d) = some e)
    {r : Relation} (hr : r ∈ k.schema.relations) :
    (k.toDocument e).value? r.idField = (k.schema.prunedIn s none d).value? r.idField := by
  obtain ⟨columns, htable, hrestores⟩ := hk.exists_columns
  obtain ⟨c, hc, hcolumn⟩ := hrestores r hr
  have hpruned : k.schema.HasReferences Relation.MayHold (k.schema.prunedIn s none d) :=
    hhas.regives hk.lawful.schema hk.linked (fun _ _ => .inl) (.prunedIn hk.lawful.schema s none d)
  obtain ⟨v, hv, hmay⟩ := hpruned r hr
  have hvalue : (k.schema.lookedUp viewer s d).value? r.idField = some v :=
    (Schema.value?_lookedUp hk.apart (fun x hx => hk.apart.across r hr x hx) d).trans hv
  rw [htable.value?_reference hc hcolumn he hvalue hmay, hv]

end IsKind

/-- **Look-ups settle.** In every store that is reached, with pruned references being written back,
an undisturbed look-up of an entity that the caller sees and that can be read, with what it is
shown, succeeds if the policy decides about all that the entity refers to. Whenever it succeeds, the
document that is left refers to existing entities only, and so does the entity that is returned;
just what was dangling is gone and the version tells of it. Looking up once more reports and writes
nothing, as long as the caller sees the document that was left. -/
theorem lookUp_settles {E : Type} {k : EntityKind E} (hk : IsKind k) {s : Store} (hs : Reached s)
    (u : Setup) (hpersist : u.settings.persistPrunedReferences = true) (caller : Caller) {id : Uuid}
    {d : Document} (hd : (id, d) ∈ s.entries (u.collection k).name)
    (hsees : u.policy.Sees caller (u.collection k).name d)
    (hread : (k.ofDocument? d).isSome = true)
    (hcopies : ∀ r ∈ k.schema.relations, ∀ x ∈ r.shownIn u.policy caller s d,
      ReadableAs r.target x) :
    ((∀ r ∈ k.schema.relations, r.Decided ((u.collection k).viewer caller) s d) → ∀ answer t,
      ((u.collection k).get caller id true).run.Runs .calm s answer t →
        ∃ report, answer = .ok report) ∧
    ∀ report t, ((u.collection k).get caller id true).run.Runs .calm s (.ok report) t →
      Reached t ∧ ∃ d', (u.collection k).Settles s id d report d' t ∧
        (∀ r ∈ k.schema.relations,
          (k.toDocument report.entity).value? r.idField = d'.value? r.idField) ∧
        (u.collection k).Rests caller t id d' := by
  constructor
  · intro hdecided answer t hrun
    exact Collection.ok_of_decided (c := u.collection k) hk.lawful.schema hk.apart hk.versionName?
      hs.counted hd hsees hpersist hdecided (hk.isSome_lookedUp hread hcopies) hrun
  · intro report t hrun
    have hanswered : ((Operation.get id true).program (u.collection k) caller).run.Runs .calm s
        (.ok (.found report)) t := runs_bindE_ok hrun ⟨rfl, rfl⟩
    have ht : Reached t := hk.reached hs u caller (.get id true) ⟨_, hanswered.any⟩
    obtain ⟨hdecided, he, d', hsettles, hpruned⟩ := Collection.settles_of_get (c := u.collection k)
      hk.lawful.schema hk.apart hk.versionName? hs.counted hd hsees hpersist hk.linked hrun
    refine ⟨ht, d', hsettles, fun r hr => ?_, ?_⟩
    · rw [hk.value?_returned (hk.hasReferences_stored hs hd) he hr]
      exact (hpruned.value?_idField (c := u.collection k) hk.lawful.schema hr).symm
    · refine Collection.rests hk.apart hs.keyed ht.keyed hd hsees hsettles hdecided ?_
      have hread' := hk.isSome_regives hpruned.regives hread
      refine hk.isSome_lookedUp hread' fun r hr x hx => ?_
      rcases hsettles.mem_shownIn hd hs.keyed ht.keyed hr hx with ⟨hname, rfl⟩ | hx
      · exact hname ▸ hk.readableAs hread'
      · exact hcopies r hr x hx

/-! ### A category whose phone book was deleted -/

/-- A category of a phone book that was deleted. -/
def lapsedCategory : Document :=
  [("id", Value.ofUuid (.ofByte 2)),
   ("name", .string "Suppliers"),
   ("description", .null),
   ("settings", .null),
   ("phone_book_ids", Value.ofUuids [.ofByte 1]),
   ("last_update", .dateTime 0),
   ("last_update_by", .string ""),
   ("version", .int64 0)]

/-- The store that has no other entity. -/
def lapsedStore : Store := ⟨[("phone_books", []), ("categories", [(.ofByte 2, lapsedCategory)])]⟩

theorem reached_lapsedStore : Reached lapsedStore := by
  have hdeleted : (serveAll {} {} .fresh
      [.book (.add { Book.ofName "Office" with id := .ofByte 1 }),
       .category (.add { Category.ofName "Suppliers" with
         id := .ofByte 2
         phoneBookIds := [.ofByte 1] }),
       .book (.delete (.ofByte 1))]).store = lapsedStore := rfl
  rw [← hdeleted]
  exact Reached.empty.serveAll (x := .fresh) rfl _ _ _

theorem mem_lapsedStore : (Uuid.ofByte 2, lapsedCategory) ∈ lapsedStore.entries "categories" :=
  List.mem_singleton.mpr rfl

theorem sees_lapsed : ({} : Setup).policy.Sees {} "categories" lapsedCategory :=
  ⟨(AccessPolicy.accepts_iff (reached_lapsedStore.keyed _) mem_lapsedStore).mpr rfl, rfl⟩

theorem shownIn_lapsed (a : AccessPolicy) (caller : Caller) :
    ∀ r ∈ Category.kind.schema.relations, r.shownIn a caller lapsedStore lapsedCategory = [] := by
  intro r hr
  obtain rfl := List.mem_singleton.mp hr
  exact List.filterMap_eq_nil_iff.mpr fun _ _ => rfl

/-- A session that starts with the category. -/
def lapsing : Session := { Session.fresh with store := lapsedStore }

/-- The look-up of the category by a caller who sees all. -/
def lookUpLapsed : OperationM (ReadReport Category) :=
  (({} : Setup).collection Category.kind).get {} (.ofByte 2) true

/-- **The deleted phone book goes** from the category, and then the category rests. -/
theorem lapsed_settles : Reached lapsedStore ∧ ∃ report t d',
    lookUpLapsed.run.Runs .calm lapsedStore (.ok report) t ∧
      report.changedFields = ["phone_book_ids"] ∧
      (Uuid.ofByte 2, d') ∈ t.entries "categories" ∧
      d'.value? "version" = some (.int64 1) ∧
      booksRelation.targetIds d' = [] ∧
      ∃ e, Quietly t lookUpLapsed (.ok ⟨e, []⟩) := by
  obtain ⟨report, hrun, hreport⟩ := exists_calm_runs_ok lookUpLapsed (x := lapsing) rfl rfl
    (p := fun report => report.changedFields = ["phone_book_ids"]) (by decide +kernel)
  rw [decide_eq_true_iff] at hreport
  obtain ⟨-, hsettled⟩ := lookUp_settles .category reached_lapsedStore {} rfl {} mem_lapsedStore
    sees_lapsed (by decide +kernel) fun r hr x hx =>
      absurd (shownIn_lapsed _ _ r hr ▸ hx) List.not_mem_nil
  obtain ⟨-, d', hsettles, -, hrests⟩ := hsettled report _ hrun
  refine ⟨reached_lapsedStore, report, _, d', hrun, hreport, hsettles.left, ?_, ?_,
    hrests.again rfl⟩
  · obtain ⟨v, hv, -, hv'⟩ := hsettles.version "version" rfl
    cases hv
    exact hv' (by rw [hreport]; exact List.cons_ne_nil _ _) (by decide)
  · rw [hsettles.kept booksRelation (.head _)]
    rfl

/-- Those who may see the categories of a phone book only. -/
def bookReaders : AccessPolicy where
  grants _ _ _ := .ok true
  visibility _ _ := some (.eq "phone_book_ids" (Value.ofUuid (.ofByte 1)))
  isComplete _ _ := false

/-- The categories as the readers of the phone book see them. -/
def bookCategories : Collection Category := Setup.collection { policy := bookReaders } Category.kind

/-- **A look-up may hide the category** from the caller who makes it. The category can be read, and
the first look-up succeeds and takes the deleted phone book away; the second one finds no
category. -/
theorem lapsed_vanishes :
    Reached lapsedStore ∧
      bookReaders.Sees {} bookCategories.name lapsedCategory ∧
      (Category.kind.ofDocument? lapsedCategory).isSome = true ∧
      (∀ r ∈ Category.kind.schema.relations,
        r.shownIn bookReaders {} lapsedStore lapsedCategory = []) ∧
      ∃ report t,
        (bookCategories.get {} (.ofByte 2) true).run.Runs .calm lapsedStore (.ok report) t ∧
        ∀ answer v, (bookCategories.get {} (.ofByte 2) true).run.Runs .calm t answer v →
          answer = .error (.missing bookCategories.name (.ofByte 2)) := by
  have hsees : bookReaders.Sees {} bookCategories.name lapsedCategory :=
    ⟨(AccessPolicy.accepts_iff (reached_lapsedStore.keyed _) mem_lapsedStore).mpr rfl,
      by decide +kernel⟩
  obtain ⟨report, hrun, -⟩ := exists_calm_runs_ok (bookCategories.get {} (.ofByte 2) true)
    (x := lapsing) rfl rfl (p := fun _ => true) (by decide +kernel)
  have hanswered : ((Operation.get (.ofByte 2) true).program bookCategories {}).run.Runs .calm
      lapsedStore (.ok (.found report)) _ := runs_bindE_ok hrun ⟨rfl, rfl⟩
  have ht : Reached ((bookCategories.get {} (.ofByte 2) true).run.run lapsing).2.store :=
    IsKind.category.reached reached_lapsedStore { policy := bookReaders } {}
      (.get (.ofByte 2) true) ⟨_, hanswered.any⟩
  obtain ⟨⟨k, d'⟩, hd', rfl, hhidden⟩ : ∃ e ∈ ((bookCategories.get {} (.ofByte 2) true).run.run
      lapsing).2.store.entries bookCategories.name, e.1 = .ofByte 2 ∧
        Filter.admits (bookReaders.visibility bookCategories.name {}) e.2 = false := by
    decide +kernel
  refine ⟨reached_lapsedStore, hsees, by decide +kernel, shownIn_lapsed _ _, report, _, hrun,
    fun answer v hagain => ?_⟩
  exact (((Collection.quietly_get_hidden ht.keyed hd' hhidden).surely _ _).mp hagain).1

end Directory

end Registrar
