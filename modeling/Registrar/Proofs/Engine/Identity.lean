import Registrar.Proofs.Engine.Spoiling

/-!
# Ids, copies and lists of references

What stays true of all documents of a collection, whatever is written. No document holds copies of
the entities that it refers to, and each list of references is a list of ids: a plan may put an
object into a field without parts, but a list it writes as a whole. Ids of documents come with the
entities that are added. An entity without an id is given one that is drawn, so no document has the
nil id where nil is never drawn.

* `Schema.Shaped`: documents without copies, with lists of ids.
* `Effect.shaped`: every operation keeps documents so.
* `Effect.keys`: ids come with a new document only, and they keep their order.
* `unowned_nil`: no document gets the nil id.
-/

namespace Registrar

/-! ### Copies and lists -/

namespace Schema

variable {sc : Schema} {d d' : Document}

/-- **Lists of references are collections**, which are written as a whole. -/
def WholeLists (sc : Schema) : Prop :=
  ∀ r ∈ sc.relations, r.cardinality = .many → ∀ f ∈ sc.fields, f.name = r.idField →
    f.kind.isCollection = true

instance (sc : Schema) : Decidable sc.WholeLists :=
  inferInstanceAs (Decidable (∀ r ∈ sc.relations, r.cardinality = .many → ∀ f ∈ sc.fields,
    f.name = r.idField → f.kind.isCollection = true))

/-- **A document without copies** of other entities, in which every list of references is a list of
ids. -/
structure Shaped (sc : Schema) (d : Document) : Prop where
  bare : sc.Bare d
  lists : ∀ r ∈ sc.relations, r.cardinality = .many →
    ∃ ids, d.value? r.idField = some (Value.ofUuids ids)

/-- **What the engine gives** has this shape. -/
theorem Shaped.regives (hs : sc.Lawful) (hl : sc.Linked) (h : sc.Regives d d') (hd : sc.Shaped d) :
    sc.Shaped d' where
  bare := h.bare hd.bare
  lists r hr hmany := by
    obtain ⟨f, hf, hrole, hname⟩ := hs.references r hr
    rcases h f hf with heq | ⟨v, hv, heq⟩
    · rw [← hname, heq, hname]
      exact hd.lists r hr hmany
    · rw [Gives, hrole] at hv
      obtain ⟨r', hr', hfield, hholds⟩ := hv
      obtain rfl : r' = r := List.inj_on_of_nodup_map hl.nodup hr' hr (hfield.trans hname)
      rw [Relation.Holds, hmany] at hholds
      obtain ⟨ids, rfl⟩ := hholds
      exact ⟨ids, hname ▸ heq⟩

theorem Shaped.valueOrNull (hd : sc.Shaped d) {r : Relation} (hr : r ∈ sc.relations)
    (hmany : r.cardinality = .many) : ∃ ids, d.valueOrNull r.idField = Value.ofUuids ids := by
  obtain ⟨ids, hids⟩ := hd.lists r hr hmany
  exact ⟨ids, by rw [Document.valueOrNull, hids, Option.getD_some]⟩

end Schema

namespace EntityKind

variable {E : Type} {k : EntityKind E} {d patch : Document} {properties paths : List String}
  {existing : Option Document}

/-- **A plan keeps the shape** of a document, if the patch has it. -/
theorem shaped_plan (hs : k.schema.Lawful) (hw : k.schema.WholeLists) (hp : k.schema.Shaped patch)
    (hd : k.schema.Shaped d) :
    k.schema.Shaped (Document.setAll (k.schema.plan properties paths patch existing) d) where
  bare := bare_plan hs hd.bare
  lists r hr hmany := by
    obtain ⟨f, hf, -, hname⟩ := hs.references r hr
    rw [← hname]
    by_cases hwhole : k.schema.PlansWhole properties paths existing f
    · obtain ⟨ids, hids⟩ := hp.valueOrNull hr hmany
      exact ⟨ids, by rw [Schema.value?_plan_of_whole hs hf hwhole, hname, hids]⟩
    -- No name leads below the field alone, for a list that is named is written as a whole.
    · have hunnamed : ¬ k.schema.Names (k.schema.plannedNames properties paths) f := fun hnames =>
        hwhole (plansWhole_of_collection hs hf (hw r hr hmany f hf hname) hnames)
      rw [Schema.value?_plan_of_unplanned hs hf hwhole hunnamed, hname]
      exact hd.lists r hr hmany

/-- **A difference keeps the shape** of a document, if what is proposed has it. -/
theorem shaped_diff (hs : k.schema.Lawful) (hp : k.schema.Shaped patch) (hd : k.schema.Shaped d)
    (dependencies : Bool) :
    k.schema.Shaped (Document.setAll (k.schema.diff dependencies d patch) d) where
  bare := bare_diff hs hd.bare dependencies
  lists r hr hmany := by
    obtain ⟨f, hf, -, hname⟩ := hs.references r hr
    rw [← hname]
    rcases value?_diff_cases hs hf dependencies with ⟨-, heq⟩ | heq
    · obtain ⟨ids, hids⟩ := hp.valueOrNull hr hmany
      exact ⟨ids, by rw [heq, hname, hids]⟩
    · rw [heq, hname]
      exact hd.lists r hr hmany

end EntityKind

namespace Collection

variable {E : Type} {c : Collection E} {caller : Caller} {w : Surroundings} {s t : Store}
  {op : Operation E}

/-- **Every operation keeps the shape** of all documents, if the documents of entities have it. -/
theorem Effect.shaped (h : c.Effect caller s op t) (hs : c.schema.Lawful) (hl : c.schema.Linked)
    (hw : c.schema.WholeLists) (hentity : ∀ e, c.schema.Shaped (c.kind.toDocument e))
    (hk : s.Keyed) (hall : ∀ id d, (id, d) ∈ s.entries c.name → c.schema.Shaped d) :
    ∀ id d, (id, d) ∈ t.entries c.name → c.schema.Shaped d := by
  have hpatch : ∀ {e patch}, c.schema.Regives (c.kind.toDocument e) patch →
      c.schema.Shaped patch := fun hgiven => (hentity _).regives hs hl hgiven
  refine h.forall_given hs (fun e => (hentity e).bare) hk hall
    (fun d d' hgiven hd => hd.regives hs hl hgiven) (fun e e' _ _ => hentity e') ?_ ?_ ?_
  · intro e asked e' dependencies patch d _ _ hgiven hd
    exact EntityKind.shaped_diff hs (hpatch hgiven) hd dependencies
  · intro delta e' patch d _ _ hgiven _ hd
    exact EntityKind.shaped_plan hs hw (hpatch hgiven) hd
  · intro bulk e' patch d _ _ hgiven hd
    exact EntityKind.shaped_plan hs hw (hpatch hgiven) hd

/-! ### Ids -/

/-- **Ids come with a new document only.** The others keep their order. -/
theorem Effect.keys (h : c.Effect caller s op t) :
    ((t.entries c.name).map Prod.fst).Sublist ((s.entries c.name).map Prod.fst) ∨
      ∃ e new, op = .add e ∧ (t.entries c.name).Perm (new :: s.entries c.name) := by
  cases h with
  | idle => exact .inl (List.Sublist.refl _)
  | added prepares free inserts =>
    rw [Store.entries_insert inserts, if_pos rfl]
    exact .inr ⟨_, _, rfl, Entries.insert_perm _ _ _⟩
  | updated stored proposes =>
    rw [entries_writtenTo, Entries.map_fst_updateFirst]
    exact .inl (List.Sublist.refl _)
  | pruned stored short =>
    rw [entries_writtenTo, Entries.map_fst_updateFirst]
    exact .inl (List.Sublist.refl _)
  | assigned granted normal hchanges unshared =>
    rw [entries_assignedTo, Entries.map_fst_updateAll]
    exact .inl (List.Sublist.refl _)
  | deleted id =>
    rw [Store.deleteFirst, Store.entries_modify _ _ _ rfl, if_pos rfl]
    exact .inl ((Entries.deleteFirst_sublist _ _).map Prod.fst)
  | deletedListed granted =>
    rw [Store.deleteAll, Store.entries_modify _ _ _ rfl, if_pos rfl]
    exact .inl ((Entries.deleteAll_sublist _ _).map Prod.fst)

theorem tells_newId (w : Surroundings) (s : Store) :
    Tells w s True w.draws (OperationM.ofProgram (Program.request .newId)) := by
  rintro r t ⟨id, u, ⟨hid, rfl⟩, rfl, rfl⟩
  exact ⟨rfl, hid⟩

/-- **A prepared entity has an id** that is not nil. -/
theorem tells_prepared_assigned (hid : ∀ id e, c.kind.id (c.kind.withId id e) = id)
    (hw : ¬ w.draws .nil) (e : E) :
    Tells w s True (fun e' => c.kind.id e' ≠ .nil) (c.prepared e) := by
  refine (tells_ofDraws _).bind fun e' _ => ?_
  split
  · refine (tells_newId w s).bind fun id hdrawn => tells_pure ?_
    rw [hid]
    rintro rfl
    exact hw hdrawn
  · rename_i hassigned
    refine tells_pure fun hnil => hassigned ?_
    rw [EntityKind.isUnassigned, Uuid.isNil, hnil]
    rfl

/-- **No document gets the nil id**, where nil is never drawn. -/
theorem unowned_nil (hk : c.kind.Lawful) (hl : c.schema.Linked)
    (hid : ∀ id e, c.kind.id (c.kind.withId id e) = id) (hw : ¬ w.draws .nil) (hs : s.Keyed)
    {r : Except Failure (Answer E)} (h : (op.program c caller).run.Runs w s r t)
    (hnone : ¬ s.Has c.name .nil) : ¬ t.Has c.name .nil := by
  rcases (effect_program hk.schema hl hs op h).keys with hsub | ⟨e, -, rfl, -⟩
  · exact fun hnil => hnone (hsub.subset hnil)
  · have hends : Ends w s (fun t => ¬ t.Has c.name .nil) (c.add caller e) := by
      refine ends_prepared hs e (tells_prepared_assigned hid hw e) hnone ?_
      intro e' now t hassigned _ hinserts
      rw [Store.has_iff]
      rintro ⟨d, hd⟩
      rw [Store.entries_insert hinserts, if_pos rfl, Entries.mem_insert] at hd
      rcases hd with heq | hd
      · exact hassigned (Prod.mk.inj heq).1.symm
      · exact hnone (Store.has_iff.mpr ⟨d, hd⟩)
    exact hends.bind_quiet (fun _ => always_pureE _) r t h

end Collection

end Registrar
