import Registrar.Proofs.Engine.Written
import Registrar.Proofs.Store.Names

/-!
# Names that operations write

Entities of some kinds have a name of their own. Before such a name is written, the store is asked
for other documents that have it, and the operation ends if there are any. Only an assignment to a
single entity writes its template's name without asking. So names are kept apart by every operation
but this one, and by this one too unless the name is taken.

* `EntityKind.Named`: a kind whose entities have names of their own.
* `Collection.TakesName`: an assignment of a name that another entity has.
* `Effect.namesFrom`: every other operation leaves the names that there were, and perhaps an unused
  one.
* `Effect.shared`: if an assignment of a taken name writes anything, two entities have one name.
-/

namespace Registrar

/-- **A kind with names**: the name is unique, it is plain data, and canonical forms have it without
blanks around it. -/
structure EntityKind.Named {E : Type} (k : EntityKind E) (g : Field) (name : E → String) :
    Prop where
  unique : k.schema.uniqueName = some g.name
  declared : g ∈ k.schema.fields
  role : g.role = .data
  document : ∀ e, (k.toDocument e).value? g.name = some (.string (name e))
  withId : ∀ id e, name (k.withId id e) = name e
  normal : ∀ e e', (k.normalize e).Gives e' → name e' = Text.trim (name e)

namespace Collection

variable {E : Type} {c : Collection E} {caller : Caller} {s t : Store} {g : Field}
  {name : E → String}

/-- **An assignment gives one entity the name of another.** -/
def TakesName (c : Collection E) (caller : Caller) (s : Store) (g : Field) (name : E → String) :
    Operation E → Prop
  | .assign bulk =>
    ∃ id, c.policy.grantedAmong c.name caller bulk.ids = .ok [id] ∧
      (∃ p ∈ bulk.properties, c.schema.WritesWhole none g p) ∧
      ∃ b ∈ s.entries c.name, b.1 ≠ id ∧ ∃ y, Document.value? b.2 g.name = some (.string y) ∧
        Text.SameName (name bulk.template) y
  | _ => False

/-! ### Names that are written -/

section Named

variable (hs : c.schema.Lawful) (hn : c.kind.Named g name)

include hs hn

theorem name_ne_idField {r : Relation} (hr : r ∈ c.schema.relations) : g.name ≠ r.idField :=
  hs.name_ne_reference hn.declared (by rw [hn.role]; exact FieldRole.noConfusion) hr

theorem name_submitted (prune : Bool) (only : Option (List String)) (e : E) :
    (c.submitted s prune only (c.kind.toDocument e)).valueOrNull g.name = .string (name e) := by
  have hdoc : (c.submitted s prune only (c.kind.toDocument e)).value? g.name =
      some (.string (name e)) := by
    rw [submitted]
    split
    · rw [Schema.value?_prunedIn fun r hr =>
        name_ne_idField hs hn (Schema.mem_chosenRelations hr), hn.document]
    · exact hn.document e
  rw [Document.valueOrNull, hdoc, Option.getD_some]

theorem nameUnused_of_free (hk : s.Keyed) (ht : (s.entries c.name).NamesTrimmed g.name)
    {d : Document} {id : Uuid} {x : String} (hx : d.value? g.name = some (.string x))
    (hfree : c.NameFree s d id) : (s.entries c.name).NameUnused g.name id x := by
  by_cases hblank : Text.trim x = ""
  · intro b _ _ y _ hsame
    exact hsame.1 hblank
  · refine Store.unused_of_count hk (hs.dotless g hn.declared) ht (hfree g.name _ ?_)
    have hunique : c.schema.uniqueName = some g.name := hn.unique
    simp [nameToKeep?, hunique, hx, Value.string?, hblank]

theorem nameUnused_of_renameFree (hk : s.Keyed) (ht : (s.entries c.name).NamesTrimmed g.name)
    {changes : Changes} {id : Uuid} {x : String} (hx : changes.value? g.name = some (.string x))
    (hfree : c.RenameFree s changes id) : (s.entries c.name).NameUnused g.name id x := by
  refine nameUnused_of_free hs hn hk ht ?_ (hfree g.name _ hn.unique hx)
  rw [Document.value?, if_pos rfl]

/-- **The name after an update**: it is as it was, unless the changes set it. -/
theorem name_stamped {changes : Changes} {x y : String}
    (h : SettlesIfNamed changes g.name (.string x)) {now : Int64} {d : Document}
    (hy : ((c.withVersion { sets := changes ++ c.stampsAt caller now }).apply d).value? g.name =
      some (.string y)) :
    d.value? g.name = some (.string y) ∨ changes.value? g.name = some (.string x) ∧ y = x := by
  have hrole := hn.role
  rw [value?_stamped hs hn.declared (by simp [hrole])] at hy
  rcases h.value?_setAll (hs.dotless g hn.declared) d with ⟨hset, hd⟩ | ⟨-, hd | ⟨inner, hd⟩⟩
  · rw [hd] at hy
    cases hy
    exact .inr ⟨hset, rfl⟩
  · rw [hd] at hy
    exact .inl hy
  · rw [hd] at hy
    cases hy

/-- **What is proposed for a loaded document** sets no name but an unused one. -/
theorem settles_proposed (hk : s.Keyed) (hv : c.settings.validateUniqueNames = true)
    (ht : (s.entries c.name).NamesTrimmed g.name) {op : Operation E} {id : Uuid} {d : Document}
    {changes : Changes} (h : c.Proposes s op id d changes) :
    ∃ x, Text.trim x = x ∧ SettlesIfNamed changes g.name (.string x) ∧
      (changes.value? g.name = some (.string x) → (s.entries c.name).NameUnused g.name id x) := by
  have hreference : ∀ {r : Relation} {relation : String} {v : Value},
      c.schema.relation? relation = some r → Document.value? [(r.idField, v)] g.name = none := by
    intro r relation v hr
    have hne := name_ne_idField hs hn (List.mem_of_find?_eq_some hr)
    rw [Document.value?, if_neg hne.symm]
    rfl
  cases h with
  | @update e e' asked dependencies d changes normal hdependencies hchanges free =>
    refine ⟨name e', ?_, ?_, fun hx => nameUnused_of_renameFree hs hn hk ht hx (free hv)⟩
    · rw [hn.normal e e' normal, Text.trim_trim]
    · rw [hchanges, ← name_submitted hs hn _ _ e']
      exact Schema.settlesIfNamed_diff hs hn.declared _ _ _
  | @applyDelta delta e' d changes normal hchanges free =>
    refine ⟨name e', ?_, ?_, fun hx => nameUnused_of_renameFree hs hn hk ht hx (free hv)⟩
    · rw [hn.normal _ e' normal, Text.trim_trim]
    · rw [hchanges, ← name_submitted hs hn _ _ e']
      exact Schema.settlesIfNamed_plan hs hn.declared (by simp [hn.role]) _ _ _ _
  | link hr | unlink hr | refer hr | clear hr =>
    refine ⟨"", by decide, .inl (hreference hr), fun hx => ?_⟩
    rw [hreference hr] at hx
    cases hx

/-! ### Names after an operation -/

theorem name_newDocument (now : Int64) (e : E) :
    (c.stampedNewAt caller now (c.newDocument s e)).value? g.name = some (.string (name e)) := by
  have hrole := hn.role
  have hother : ∀ r ∈ c.schema.relations, g.name ≠ r.idField := fun r hr =>
    name_ne_idField hs hn hr
  rw [c.value?_stampedNewAt caller hs hn.declared (by simp [hrole]), newDocument,
    Schema.value?_prunedIn fun r hr => hother r (Schema.mem_chosenRelations hr),
    c.value?_withLists hother,
    c.value?_withoutNavigation hs hn.declared (by simp [hrole]), hn.document]

/-- **Names after an operation** that takes no name: the names that there were, and perhaps one that
was unused. -/
theorem Effect.namesFrom (hk : s.Keyed) (hv : c.settings.validateUniqueNames = true)
    (ht : (s.entries c.name).NamesTrimmed g.name) {op : Operation E}
    (hfree : ¬ c.TakesName caller s g name op) (h : c.Effect caller s op t) :
    ∃ id, (s.entries c.name).NamesFrom g.name (t.entries c.name) id := by
  cases h with
  | idle => exact ⟨.nil, .of_subset fun a ha => ha⟩
  | @added e e' now t prepares free inserts =>
    refine ⟨c.kind.id e', fun a ha x hx => ?_⟩
    rw [Store.entries_insert inserts, if_pos rfl, Entries.mem_insert] at ha
    rcases ha with rfl | ha
    · rw [name_newDocument hs hn] at hx
      obtain rfl : name e' = x := by simpa using hx
      refine .inr ⟨rfl, ?_, nameUnused_of_free hs hn hk ht ?_ (free hv)⟩
      · obtain ⟨e₁, he₁, he'⟩ := prepares
        have hname : name e' = name e₁ := by
          split at he'
          · obtain ⟨id, rfl⟩ := he'
            exact hn.withId id e₁
          · rw [he']
        rw [hname, hn.normal e e₁ he₁, Text.trim_trim]
      · rw [c.value?_withoutNavigation hs hn.declared (by simp [hn.role]), hn.document]
    · exact .inl ⟨a.2, ha, hx⟩
  | @updated op id d changes now stored proposes =>
    obtain ⟨x, hx, hset, hunused⟩ := settles_proposed hs hn hk hv ht proposes
    refine ⟨id, fun a ha y hy => ?_⟩
    rcases mem_writtenTo hk stored ha with ha | rfl
    · exact .inl ⟨a.2, ha, hy⟩
    · rcases name_stamped hs hn hset hy with hd | ⟨hchanged, rfl⟩
      · exact .inl ⟨d, stored, hd⟩
      · exact .inr ⟨rfl, hx, hunused hchanged⟩
  | @pruned id lookup d changes stored short =>
    refine ⟨id, fun a ha y hy => .inl ?_⟩
    rcases mem_writtenTo hk stored ha with ha | rfl
    · exact ⟨a.2, ha, hy⟩
    · rw [value?_versioned hs hn.declared (by simp [hn.role]), Document.value?_setAll_of_ne] at hy
      · exact ⟨d, stored, hy⟩
      · intro p hp
        obtain ⟨r, hr, hname, -⟩ := short p hp
        obtain ⟨f, hf, -, hidField⟩ := hs.references r hr
        rw [hname, ← hidField, Schema.headSegment_name hs hf, hidField]
        exact name_ne_idField hs hn hr
  | @assigned bulk ids e' now changes granted normal hchanges unshared =>
    have hset : SettlesIfNamed changes g.name (.string (name e')) := by
      rw [hchanges, ← name_submitted hs hn _ _ e']
      exact Schema.settlesIfNamed_plan hs hn.declared (by simp [hn.role]) _ _ _ _
    have htrim : name e' = Text.trim (name bulk.template) := hn.normal _ e' normal
    refine ⟨ids.headD .nil, fun a ha y hy => ?_⟩
    rcases mem_assignedTo hk ha with ha | ⟨d, hd, hid, -, hu⟩
    · exact .inl ⟨a.2, ha, hy⟩
    rw [hu] at hy
    rcases name_stamped hs hn hset hy with hold | ⟨hchanged, rfl⟩
    · exact .inl ⟨d, hd, hold⟩
    -- The name is set, so there is just one entity, and its new name is not taken.
    have hlen : ids.length ≤ 1 := unshared g.name hn.unique (by rw [hchanged]; rfl)
    obtain ⟨id, rfl⟩ : ∃ id, ids = [id] := List.length_eq_one_iff.mp
      (le_antisymm hlen (List.length_pos_of_mem hid))
    obtain rfl : a.1 = id := by simpa using hid
    refine .inr ⟨rfl, by rw [htrim, Text.trim_trim], fun b hb hne z hz hsame => hfree ?_⟩
    refine ⟨a.1, granted, ?_, b, hb, hne, z, hz, ?_⟩
    · have hwhole : g.name ∈ c.schema.replaced bulk.properties [] none := by
        by_contra hnot
        rw [hchanges, Schema.value?_plan_eq_none hs hn.declared (by simp [hn.role]) hnot]
          at hchanged
        cases hchanged
      rw [Schema.mem_replaced_iff hs hn.declared, List.nil_append, Schema.uncovered_nil] at hwhole
      exact hwhole
    · rwa [htrim, Text.sameName_trim] at hsame
  | deleted id => exact ⟨id, .of_subset fun a ha => Store.mem_of_mem_deleteFirst ha⟩
  | deletedListed granted => exact ⟨.nil, .of_subset fun a ha => Store.mem_of_mem_deleteAll ha⟩

/-- **An assignment of a taken name** that writes anything leaves two entities with one name. -/
theorem Effect.shared (hk : s.Keyed) {op : Operation E} (htakes : c.TakesName caller s g name op)
    (h : c.Effect caller s op t) (hne : t.entries c.name ≠ s.entries c.name) :
    ¬ (t.entries c.name).NamesUnique g.name := by
  cases op with
  | assign bulk =>
    cases h with
    | idle => exact absurd rfl hne
    | updated _ proposes => cases proposes
    | @assigned _ ids e' now changes granted normal hchanges unshared =>
      obtain ⟨id, hgranted, hwhole, b, hb, hbid, y, hy, hsame⟩ := htakes
      obtain rfl : ids = [id] := by simpa using granted.symm.trans hgranted
      have hset : Settles changes g.name (.string (name e')) := by
        rw [hchanges, ← name_submitted hs hn _ _ e']
        refine Schema.settles_plan hs hn.declared (by simp [hn.role]) ?_ _
        rwa [Schema.mem_replaced_iff hs hn.declared, List.nil_append, Schema.uncovered_nil]
      have htrim : name e' = Text.trim (name bulk.template) := hn.normal _ e' normal
      obtain ⟨⟨k, d⟩, hd, hf⟩ := assigned_of_ne hne
      obtain rfl : k = id := by simpa using mem_of_visibleAmong hk hd hf
      have hname : ((c.withVersion { sets := changes ++ c.stampsAt caller now }).apply d).value?
          g.name = some (.string (name e')) := by
        rw [value?_stamped hs hn.declared (by simp [hn.role])]
        exact hset.value?_setAll (hs.dotless g hn.declared) d
      have hother : (c.visibleAmong caller [k]).holds b.2 = false := by
        refine Bool.eq_false_iff.mpr fun hmeant => hbid ?_
        simpa using mem_of_visibleAmong hk hb hmeant
      intro hunique
      refine hbid (hunique _ (assigned_mem hd hf _) b (unassigned_mem hb hother _) _ y hname hy
        ?_).symm
      rwa [htrim, Text.sameName_trim]
  | _ => exact htakes.elim

end Named

end Collection

end Registrar
