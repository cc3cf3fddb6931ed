import Registrar.Proofs.Engine.Identity

/-!
# What the fields of relations hold

The document of an entity has a list of ids in the field of each relation to many entities, and an
id or null in that of each relation to one. Operations keep it so, with one exception: a plan that
names a part of a single reference puts an object there. An id has no parts, so all that such an
object has is null.

* `Relation.Holds`, `Relation.MayHold`: what an entity stores for a relation, and what may be left
  of it.
* `Schema.HasReferences`: documents with such values in the fields of all relations.
* `EntityKind.hasReferences_plan`, `EntityKind.hasReferences_diff`: plans and differences leave such
  documents.
* `Effect.hasReferences`: **every operation keeps documents so**.
-/

namespace Registrar

/-- **What a field of a relation may hold**: what the relation stores, or an object of nulls in
place of a single id. -/
def Relation.MayHold (r : Relation) (v : Value) : Prop :=
  r.Holds v ∨ r.cardinality = .one ∧ ∃ inner, v = .document inner ∧ ∀ x ∈ inner, x.2 = .null

/-- **A document has references** of a sort in the fields of all relations. -/
def Schema.HasReferences (sc : Schema) (sort : Relation → Value → Prop) (d : Document) : Prop :=
  ∀ r ∈ sc.relations, ∃ v, d.value? r.idField = some v ∧ sort r v

variable {sc : Schema} {sort : Relation → Value → Prop} {d d' : Document} {r : Relation}

theorem Schema.HasReferences.regives (hs : sc.Lawful) (hl : sc.Linked)
    (hsort : ∀ r v, r.Holds v → sort r v) (h : sc.Regives d d') (hd : sc.HasReferences sort d) :
    sc.HasReferences sort d' := by
  intro r hr
  obtain ⟨f, hf, hrole, hname⟩ := hs.references r hr
  rcases h f hf with heq | ⟨v, hv, heq⟩
  · rw [← hname, heq, hname]
    exact hd r hr
  · rw [Schema.Gives, hrole] at hv
    obtain ⟨r', hr', hfield, hholds⟩ := hv
    obtain rfl : r' = r := List.inj_on_of_nodup_map hl.nodup hr' hr (hfield.trans hname)
    exact ⟨v, hname ▸ heq, hsort _ v hholds⟩

theorem Schema.HasReferences.valueOrNull (h : sc.HasReferences sort d) (hr : r ∈ sc.relations) :
    sort r (d.valueOrNull r.idField) := by
  obtain ⟨v, hv, hsort⟩ := h r hr
  rwa [Document.valueOrNull, hv, Option.getD_some]

namespace Relation

theorem Holds.leafOrNull (h : r.Holds (d.valueOrNull r.idField)) (leaf : String) :
    d.leafOrNull r.idField leaf = .null := by
  have hflat : ∀ inner, d.value? r.idField ≠ some (.document inner) := by
    intro inner heq
    rw [Document.valueOrNull, heq, Option.getD_some] at h
    exact h.ne_document inner rfl
  rw [Document.leafOrNull, Value.document?_eq_none hflat]
  rfl

theorem MayHold.null_of_mem {v : Value} (h : r.MayHold v) (hd : d.value? r.idField = some v) :
    ∀ x ∈ d.objectAt r.idField, x.2 = .null := by
  rcases h with h | ⟨-, inner, rfl, hnull⟩
  · have hflat : ∀ inner, d.value? r.idField ≠ some (.document inner) := fun inner heq =>
      h.ne_document inner (Option.some.inj (hd.symm.trans heq))
    rw [Document.objectAt, Value.document?_eq_none hflat]
    intro x hx
    exact absurd hx List.not_mem_nil
  · rwa [Document.objectAt_of_value? hd]

end Relation

namespace EntityKind

variable {E : Type} {k : EntityKind E} {patch : Document} {properties paths : List String}
  {existing : Option Document}

/-- **A plan leaves references**, if the patch has them. -/
theorem hasReferences_plan (hs : k.schema.Lawful) (hleaves : k.schema.DotlessLeaves)
    (hw : k.schema.WholeLists) (hp : k.schema.HasReferences Relation.Holds patch)
    (hd : k.schema.HasReferences Relation.MayHold d) :
    k.schema.HasReferences Relation.MayHold
      (Document.setAll (k.schema.plan properties paths patch existing) d) := by
  intro r hr
  obtain ⟨f, hf, -, hname⟩ := hs.references r hr
  have hholds : r.Holds (patch.valueOrNull f.name) := hname ▸ hp.valueOrNull hr
  rw [← hname]
  by_cases hwhole : k.schema.PlansWhole properties paths existing f
  · exact ⟨_, Schema.value?_plan_of_whole hs hf hwhole patch d, .inl hholds⟩
  by_cases hnames : k.schema.Names (k.schema.plannedNames properties paths) f
  · -- Parts of a list are never named, for a list that is named is written as a whole.
    have hone : r.cardinality = .one := by
      cases hmany : r.cardinality with
      | one => rfl
      | many =>
        exact absurd (plansWhole_of_collection hs hf (hw r hr hmany f hf hname) hnames) hwhole
    refine ⟨_, Schema.value?_plan_of_parts hs hleaves hf hwhole hnames patch d,
      .inr ⟨hone, _, rfl, ?_⟩⟩
    refine Document.forall_objectAt_setAll (P := (· = .null)) (hs.dotless f hf)
      (Schema.onlyParts_plan hs hleaves hf hwhole patch) (fun leaf => ?_) ?_
    · rw [hname] at hholds ⊢
      exact hholds.leafOrNull leaf
    · obtain ⟨v, hv, hmay⟩ := hd r hr
      rw [hname]
      exact hmay.null_of_mem hv
  · rw [Schema.value?_plan_of_unplanned hs hf hwhole hnames, hname]
    exact hd r hr

/-- **A difference leaves references**, if what is proposed has them. -/
theorem hasReferences_diff (hs : k.schema.Lawful) (hp : k.schema.HasReferences Relation.Holds patch)
    (hd : k.schema.HasReferences Relation.MayHold d) (dependencies : Bool) :
    k.schema.HasReferences Relation.MayHold
      (Document.setAll (k.schema.diff dependencies d patch) d) := by
  intro r hr
  obtain ⟨f, hf, -, hname⟩ := hs.references r hr
  rcases value?_diff_cases hs hf dependencies with ⟨-, heq⟩ | heq
  · exact ⟨_, hname ▸ heq, .inl (hname ▸ hp.valueOrNull hr)⟩
  · rw [hname] at heq
    rw [heq]
    exact hd r hr

end EntityKind

/-- **Every operation keeps references** in all documents, if the documents of entities have
them. -/
theorem Collection.Effect.hasReferences {E : Type} {c : Collection E} {caller : Caller}
    {s t : Store} {op : Operation E} (h : c.Effect caller s op t) (hs : c.schema.Lawful)
    (hl : c.schema.Linked) (hleaves : c.schema.DotlessLeaves) (hw : c.schema.WholeLists)
    (hbare : ∀ e, c.schema.Bare (c.kind.toDocument e))
    (hentity : ∀ e, c.schema.HasReferences Relation.Holds (c.kind.toDocument e)) (hk : s.Keyed)
    (hall : ∀ id d, (id, d) ∈ s.entries c.name → c.schema.HasReferences Relation.MayHold d) :
    ∀ id d, (id, d) ∈ t.entries c.name → c.schema.HasReferences Relation.MayHold d := by
  have hpatch : ∀ {e patch}, c.schema.Regives (c.kind.toDocument e) patch →
      c.schema.HasReferences Relation.Holds patch :=
    fun hgiven => (hentity _).regives hs hl (fun _ _ h => h) hgiven
  refine h.forall_given hs hbare hk hall
    (fun d d' hgiven hd => hd.regives hs hl (fun _ _ => .inl) hgiven) (fun e e' _ _ r hr => ?_)
    ?_ ?_ ?_
  · obtain ⟨v, hv, hholds⟩ := hentity e' r hr
    exact ⟨v, hv, .inl hholds⟩
  · intro e asked e' dependencies patch d _ _ hgiven hd
    exact EntityKind.hasReferences_diff hs (hpatch hgiven) hd dependencies
  · intro delta e' patch d _ _ hgiven _ hd
    exact EntityKind.hasReferences_plan hs hleaves hw (hpatch hgiven) hd
  · intro bulk e' patch d _ _ hgiven hd
    exact EntityKind.hasReferences_plan hs hleaves hw (hpatch hgiven) hd

end Registrar
