import Registrar.Proofs.Engine.Slots

/-!
# Operations that spoil documents

Operations write what they are given. So the documents of a collection stay readable until an
entity is written that does not fit, or a plan spoils the documents for which it is written.

* `Operation.Spoils`: the operations that spoil documents.
* `Effect.forall_given`: what all documents have in common when every way of writing keeps it.
* `intact_of_effect`: other operations keep documents intact.
* `unreadable_of_effect`: after an operation that spoils documents, one cannot be read.
-/

namespace Registrar

/-- **An operation spoils documents**, when some entities do not fit and some plans spoil the
documents for which they are written. -/
def Operation.Spoils {E : Type} (unfit : E → Prop)
    (plan : List String → List String → Option Document → E → Prop) (es : Entries) :
    Operation E → Prop
  | .add e | .update e _ => unfit e
  | .applyDelta delta => ∃ d, (delta.id, d) ∈ es ∧
    plan delta.properties delta.paths (some d) delta.data
  | .assign bulk => plan bulk.properties [] none bulk.template
  | _ => False

theorem Operation.spoils_congr {E : Type} {unfit unfit' : E → Prop}
    {plan plan' : List String → List String → Option Document → E → Prop}
    (hunfit : ∀ e, unfit e ↔ unfit' e)
    (hplan : ∀ properties paths existing e, plan properties paths existing e ↔
      plan' properties paths existing e) (es : Entries) (op : Operation E) :
    op.Spoils unfit plan es ↔ op.Spoils unfit' plan' es := by
  cases op <;> simp [Spoils, hunfit, hplan]

/-- **All documents of a kind are intact.** -/
def EntityKind.AllIntact {E : Type} (k : EntityKind E) (takers : List Taker) (s : Store) : Prop :=
  ∀ id d, (id, d) ∈ s.entries k.collection → k.Intact takers d

namespace Collection

variable {E : Type} (c : Collection E) (takers : List Taker)
  (parts : String → List (String × Taker))

/-- **An operation spoils documents** that it writes. -/
def Spoils (s : Store) (op : Operation E) : Prop :=
  op.Spoils (c.kind.Unfit takers) (c.kind.PlanSpoils takers parts) (s.entries c.name)

variable {c takers parts} {caller : Caller} {s t : Store} {d : Document} {e e' : E}
  {op : Operation E}

/-! ### Entities that are alike -/

theorem unfit_congr (h : c.kind.Alike takers e e') :
    c.kind.Unfit takers e' ↔ c.kind.Unfit takers e := by
  refine exists_congr fun q => and_congr_right fun hq => ?_
  rw [h.1 q hq]

theorem planSpoils_congr (h : c.kind.Alike takers e e') {properties paths : List String}
    {existing : Option Document} :
    c.kind.PlanSpoils takers parts properties paths existing e' ↔
      c.kind.PlanSpoils takers parts properties paths existing e := by
  have hleaf : ∀ q ∈ c.kind.slots takers, q.1.isObject = true → ∀ leaf,
      (c.kind.toDocument e').leafOrNull q.1.name leaf =
        (c.kind.toDocument e).leafOrNull q.1.name leaf := fun q hq hobject leaf => by
    rw [Document.leafOrNull, h.2 q.1 (EntityKind.mem_fields_of_slot hq).1 hobject,
      Document.leafOrNull]
  refine or_congr_right (exists_congr fun q => and_congr_right fun hq => or_congr ?_ ?_)
  · rw [h.1 q hq]
  · refine and_congr_right fun hobject => ?_
    simp only [hleaf q hq hobject]

theorem alike_trans {e'' : E} (h : c.kind.Alike takers e e') (h' : c.kind.Alike takers e' e'') :
    c.kind.Alike takers e e'' :=
  ⟨fun q hq => (h'.1 q hq).trans (h.1 q hq), fun f hf ho => (h'.2 f hf ho).trans (h.2 f hf ho)⟩

theorem alike_of_prepares (hfit : c.kind.FitFor takers) (h : c.Prepares e e') :
    c.kind.Alike takers e e' := by
  obtain ⟨e₁, hnormal, he'⟩ := h
  have halike := hfit.normal e e₁ hnormal
  split at he'
  · obtain ⟨id, rfl⟩ := he'
    exact alike_trans halike (hfit.withId id e₁)
  · exact he' ▸ halike

/-! ### What the engine gives -/

open Schema (Regives)

theorem regives_submitted (hs : c.schema.Lawful) (prune : Bool) (only : Option (List String))
    (d : Document) : c.schema.Regives d (c.submitted s prune only d) := by
  rw [submitted]
  split
  · exact Regives.prunedIn hs s only d
  · exact Regives.refl d

theorem withoutNavigation_of_bare (hd : c.schema.Bare d) : c.withoutNavigation d = d := by
  refine List.foldlRecOn (motive := (· = d)) _ _ rfl fun d' hd' f hf => ?_
  obtain ⟨hm, hrole⟩ := List.mem_filter.mp hf
  rw [hd', Document.without_of_value?_none (hd f hm (of_decide_eq_true hrole))]

theorem regives_withLists (hs : c.schema.Lawful) (d : Document) :
    c.schema.Regives d (c.withLists d) := by
  refine List.foldlRecOn (motive := fun d' => c.schema.Regives d d') _ _ (Regives.refl d)
    fun d' h r hr => ?_
  split
  · rename_i hmany
    rw [Bool.and_eq_true] at hmany
    refine h.trans (Regives.putReference hs hr ?_ d')
    rw [Relation.Holds, of_decide_eq_true hmany.1]
    exact ⟨[], rfl⟩
  · exact h

theorem gives_stamp {now : Int64} {p : String × Value} (hp : p ∈ c.stampsAt caller now) :
    ∃ f ∈ c.schema.fields, p.1 = f.name ∧ c.schema.Gives f p.2 := by
  obtain ⟨f, hf, hp⟩ := List.mem_filterMap.mp hp
  refine ⟨f, hf, ?_⟩
  split at hp
  · rename_i hr
    cases hp
    exact ⟨rfl, by rw [Schema.Gives, hr]; exact ⟨now, rfl⟩⟩
  · rename_i hr
    cases hp
    exact ⟨rfl, by rw [Schema.Gives, hr]; exact ⟨caller.stamp, rfl⟩⟩
  · cases hp

theorem gives_version {name : String} (h : c.schema.versionName? = some name) (n : Int64) :
    ∃ f ∈ c.schema.fields, name = f.name ∧ c.schema.Gives f (.int64 n) := by
  obtain ⟨f, hf, hr, hname⟩ := Schema.versionName?_eq_some h
  exact ⟨f, hf, hname.symm, by rw [Schema.Gives, hr]; exact ⟨n, rfl⟩⟩

theorem regives_stampedNewAt (hs : c.schema.Lawful) (now : Int64) (d : Document) :
    c.schema.Regives d (c.stampedNewAt caller now d) := by
  have hstamped : c.schema.Regives d
      ((c.stampsAt caller now).foldl (fun d p => Document.put d p.1 p.2) d) := by
    refine List.foldlRecOn (motive := fun d' => c.schema.Regives d d') _ _ (Regives.refl d)
      fun d' h p hp => ?_
    obtain ⟨f, hf, hname, hgives⟩ := gives_stamp hp
    exact h.trans (hname ▸ Regives.put hs hf hgives d')
  rw [stampedNewAt]
  split
  · rename_i name hname
    obtain ⟨f, hf, hfield, hgives⟩ := gives_version hname 0
    exact hstamped.trans (hfield ▸ Regives.put hs hf hgives _)
  · exact hstamped

/-- **A new document** is the document of its entity, apart from what the engine gives. -/
theorem regives_new (hs : c.schema.Lawful) (hbare : c.schema.Bare (c.kind.toDocument e))
    (now : Int64) :
    c.schema.Regives (c.kind.toDocument e) (c.stampedNewAt caller now (c.newDocument s e)) := by
  rw [newDocument, withoutNavigation_of_bare hbare]
  exact ((regives_withLists hs _).trans (Regives.prunedIn hs s none _)).trans
    (regives_stampedNewAt hs now _)

theorem regives_setAll (hs : c.schema.Lawful) {sets : List (String × Value)}
    (h : ∀ p ∈ sets, ∃ f ∈ c.schema.fields, p.1 = f.name ∧ c.schema.Gives f p.2) (d : Document) :
    c.schema.Regives d (Document.setAll sets d) := by
  have hdotless : ∀ p ∈ sets, '.' ∉ p.1.toList := by
    intro p hp
    obtain ⟨f, hf, hname, -⟩ := h p hp
    exact hname ▸ hs.dotless f hf
  intro g hg
  rcases Document.value?_setAll_of_dotless hdotless g.name d with heq | ⟨v, hv, heq⟩
  · exact .inl heq
  · obtain ⟨f, hf, hfield, hgives⟩ := h _ hv
    obtain rfl := hs.eq_of_name_eq hg hf hfield
    exact .inr ⟨v, hgives, heq⟩

theorem regives_references (hs : c.schema.Lawful) {changes : Changes}
    (h : ∀ p ∈ changes, ∃ r ∈ c.schema.relations, p.1 = r.idField ∧ r.Holds p.2) (d : Document) :
    c.schema.Regives d (Document.setAll changes d) := by
  refine regives_setAll hs (fun p hp => ?_) d
  obtain ⟨r, hr, hname, hholds⟩ := h p hp
  obtain ⟨f, hf, hfield, hgives⟩ := Regives.gives_reference hs hr hholds
  exact ⟨f, hf, hname.trans hfield.symm, hgives⟩

theorem regives_versioned (hs : c.schema.Lawful) (sets : List (String × Value)) (d : Document) :
    c.schema.Regives (Document.setAll sets d) ((c.withVersion { sets }).apply d) := by
  rw [withVersion]
  split
  · rename_i name hname
    obtain ⟨f, hf, rfl, hgives⟩ := gives_version (c := c) hname
      ((Document.setAll sets d).counter name + 1)
    have happly : (Update.inc { sets } f.name 1).apply d =
        (Document.setAll sets d).put f.name
          (.int64 ((Document.setAll sets d).counter f.name + 1)) := by
      simp only [Update.apply_eq, Update.inc, Document.addAll, List.nil_append, List.foldl_cons,
        List.foldl_nil]
      rw [Document.addPath, Document.writePath_of_dotless _ _ (hs.dotless f hf)]
    rw [happly]
    exact Regives.put hs hf hgives _
  · exact Regives.refl _

theorem regives_stamped (hs : c.schema.Lawful) (changes : Changes) (now : Int64) (d : Document) :
    c.schema.Regives (Document.setAll changes d)
      ((c.withVersion { sets := changes ++ c.stampsAt caller now }).apply d) := by
  refine Regives.trans ?_ (regives_versioned hs _ d)
  rw [Document.setAll_append]
  exact regives_setAll hs (fun p hp => gives_stamp hp) _

theorem refused_stamped (hs : c.schema.Lawful) {changes : Changes}
    (h : c.kind.Refuses takers (Document.setAll changes d)) (now : Int64) :
    c.kind.Refuses takers
      ((c.withVersion { sets := changes ++ c.stampsAt caller now }).apply d) := by
  obtain ⟨q, hq, hinternal, hrefused⟩ := h
  refine ⟨q, hq, hinternal, ?_⟩
  rw [value?_stamped hs (EntityKind.mem_fields_of_slot hq).1 ?_, hrefused]
  refine ⟨fun hr => ?_, fun hr => ?_, fun hr => ?_⟩ <;> rw [Field.isInternal, hr] at hinternal <;>
    cases hinternal

theorem regives_reference (hs : c.schema.Lawful) {r : Relation} (hr : r ∈ c.schema.relations)
    {v : Value} (hv : r.Holds v) (d : Document) :
    c.schema.Regives d (Document.setAll [(r.idField, v)] d) := by
  refine regives_references hs (fun p hp => ?_) d
  obtain rfl := List.mem_singleton.mp hp
  exact ⟨r, hr, rfl, hv⟩

/-- **What every way of writing keeps** holds of all documents after an operation. Besides what the
engine gives by itself, the documents of entities are written, differences from them, and plans. -/
theorem Effect.forall_given (h : c.Effect caller s op t) (hs : c.schema.Lawful)
    (hbare : ∀ e, c.schema.Bare (c.kind.toDocument e)) (hk : s.Keyed) {P : Document → Prop}
    (hold : ∀ id d, (id, d) ∈ s.entries c.name → P d)
    (hgiven : ∀ d d', c.schema.Regives d d' → P d → P d')
    (hadd : ∀ e e', op = .add e → c.Prepares e e' → P (c.kind.toDocument e'))
    (hdiff : ∀ e asked e' dependencies patch d, op = .update e asked →
      (c.kind.normalize e).Gives e' → c.schema.Regives (c.kind.toDocument e') patch → P d →
        P (Document.setAll (c.schema.diff dependencies d patch) d))
    (hplan : ∀ delta e' patch d, op = .applyDelta delta →
      (c.kind.normalize (c.kind.withId delta.id delta.data)).Gives e' →
      c.schema.Regives (c.kind.toDocument e') patch → (delta.id, d) ∈ s.entries c.name → P d →
        P (Document.setAll (c.schema.plan delta.properties delta.paths patch (some d)) d))
    (hassign : ∀ bulk e' patch d, op = .assign bulk → (c.kind.normalize bulk.template).Gives e' →
      c.schema.Regives (c.kind.toDocument e') patch → P d →
        P (Document.setAll (c.schema.plan bulk.properties [] patch none) d)) :
    ∀ id d, (id, d) ∈ t.entries c.name → P d := by
  have hproposed : ∀ {id d changes}, (id, d) ∈ s.entries c.name → P d →
      c.Proposes s op id d changes → P (Document.setAll changes d) := by
    intro id d changes stored hd proposes
    cases proposes with
    | update normal _ hchanges =>
      exact hchanges ▸ hdiff _ _ _ _ _ _ rfl normal (regives_submitted hs _ _ _) hd
    | applyDelta normal hchanges =>
      exact hchanges ▸ hplan _ _ _ _ rfl normal (regives_submitted hs _ _ _) stored hd
    | link hr many =>
      refine hgiven _ _ (regives_reference hs (List.mem_of_find?_eq_some hr) ?_ d) hd
      rw [Relation.Holds, many]
      exact ⟨_, rfl⟩
    | unlink hr many =>
      refine hgiven _ _ (regives_reference hs (List.mem_of_find?_eq_some hr) ?_ d) hd
      rw [Relation.Holds, many]
      exact ⟨_, rfl⟩
    | refer hr one =>
      refine hgiven _ _ (regives_reference hs (List.mem_of_find?_eq_some hr) ?_ d) hd
      rw [Relation.Holds, one]
      exact .inr ⟨_, rfl⟩
    | clear hr one =>
      refine hgiven _ _ (regives_reference hs (List.mem_of_find?_eq_some hr) ?_ d) hd
      rw [Relation.Holds, one]
      exact .inl rfl
  refine h.forall_entries hk hold ?_ ?_ ?_ ?_
  · intro e e' now hop prepares
    exact hgiven _ _ (regives_new hs (hbare e') now) (hadd e e' hop prepares)
  · intro id d changes now stored hd proposes
    exact hgiven _ _ (regives_stamped hs changes now d) (hproposed stored hd proposes)
  · intro d changes hd short
    refine hgiven _ _ (Schema.Regives.trans (regives_references hs (fun p hp => ?_) d)
      (regives_versioned hs changes d)) hd
    obtain ⟨r, hr, hname, kept, -, hvalue⟩ := short p hp
    exact ⟨r, hr, hname, hvalue ▸ r.holds_prunedValue kept⟩
  · rintro bulk ids e' changes now id d hop granted normal rfl stored hmeant hd
    exact hgiven _ _ (regives_stamped hs _ now d)
      (hassign bulk e' _ d hop normal (regives_submitted hs _ _ _) hd)

/-! ### What is written -/

section Written

variable (h : c.kind.ReadBy takers parts) (hfit : c.kind.FitFor takers) (hs : c.schema.Lawful)

include h hfit hs

omit h in
theorem intact_toDocument (hnot : ¬ c.kind.Unfit takers e) :
    c.kind.Intact takers (c.kind.toDocument e) := by
  refine ⟨hfit.bare hs e, fun q hq => ?_, hfit.flat e⟩
  by_contra hrefused
  exact hnot ⟨q, hq, Bool.eq_false_iff.mpr hrefused⟩

/-- **A new document** is intact, if its entity fits. -/
theorem intact_new (hnot : ¬ c.kind.Unfit takers e) (now : Int64) :
    c.kind.Intact takers (c.stampedNewAt caller now (c.newDocument s e)) :=
  (intact_toDocument hfit hs hnot).regives h (regives_new hs (hfit.bare hs e) now)

omit h in
theorem refused_new (hunfit : c.kind.Unfit takers e) (now : Int64) :
    c.kind.Refuses takers (c.stampedNewAt caller now (c.newDocument s e)) := by
  obtain ⟨q, hq, hrefused⟩ := hunfit
  have hdata : q.1.role = .data := by
    by_contra hr
    rw [hfit.maintained e q hq hr] at hrefused
    cases hrefused
  refine ⟨q, hq, by rw [Field.isInternal, hdata], ?_⟩
  have hgiven : c.schema.Regives (c.kind.toDocument e)
      (c.stampedNewAt caller now (c.newDocument s e)) := regives_new hs (hfit.bare hs e) now
  rw [hgiven.value?_of_data (EntityKind.mem_fields_of_slot hq).1 hdata, hrefused]

variable (hl : c.schema.DotlessLeaves) (hd : c.kind.Intact takers d)

include hl hd

theorem refused_proposed (hk : s.Keyed) {id : Uuid} {changes : Changes}
    (stored : (id, d) ∈ s.entries c.name) (hp : c.Proposes s op id d changes)
    (hspoils : c.Spoils takers parts s op) :
    c.kind.Refuses takers (Document.setAll changes d) := by
  cases hp with
  | update normal _ hchanges =>
    rw [hchanges]
    exact EntityKind.refused_diff h hfit hs (regives_submitted hs _ _ _) hd
      ((unfit_congr (hfit.normal _ _ normal)).mpr hspoils) _
  | applyDelta normal hchanges =>
    have halike := alike_trans (hfit.withId _ _) (hfit.normal _ _ normal)
    obtain ⟨d', hd', hplan⟩ := hspoils
    rw [Entries.eq_of_mem (hk c.name).nodup hd' stored] at hplan
    rw [hchanges]
    exact EntityKind.refused_plan h hfit hs hl (regives_submitted hs _ _ _) hd
      ((planSpoils_congr halike).mpr hplan)
  | link | unlink | refer | clear => exact hspoils.elim

end Written

section Effects

variable (h : c.kind.ReadBy takers parts) (hfit : c.kind.FitFor takers) (hs : c.schema.Lawful)
  (hl : c.schema.DotlessLeaves) (hk : s.Keyed) (hall : c.kind.AllIntact takers s)

include h hfit hs hl hk hall

/-- **Documents stay intact** unless an operation spoils them. -/
theorem intact_of_effect (heffect : c.Effect caller s op t) (hnot : ¬ c.Spoils takers parts s op) :
    c.kind.AllIntact takers t := by
  refine heffect.forall_given hs (hfit.bare hs) hk hall (fun d d' hgiven hd => hd.regives h hgiven)
    ?_ ?_ ?_ ?_
  · rintro e e' rfl prepares
    exact intact_toDocument hfit hs (mt (unfit_congr (alike_of_prepares hfit prepares)).mp hnot)
  · rintro e asked e' dependencies patch d rfl normal hpatch hd
    exact EntityKind.intact_diff h hfit hs hpatch hd
      (mt (unfit_congr (hfit.normal _ _ normal)).mp hnot) _
  · rintro delta e' patch d rfl normal hpatch stored hd
    have halike := alike_trans (hfit.withId _ _) (hfit.normal _ _ normal)
    exact EntityKind.intact_plan h hfit hs hl hpatch hd
      fun hspoils => hnot ⟨d, stored, (planSpoils_congr halike).mp hspoils⟩
  · rintro bulk e' patch d rfl normal hpatch hd
    exact EntityKind.intact_plan h hfit hs hl hpatch hd
      fun hspoils => hnot ((planSpoils_congr (hfit.normal _ _ normal)).mp hspoils)

/-- **After an operation that spoils documents** and writes anything, one cannot be read. -/
theorem unreadable_of_effect (heffect : c.Effect caller s op t)
    (hspoils : c.Spoils takers parts s op) (hne : t.entries c.name ≠ s.entries c.name) :
    ∃ id d, (id, d) ∈ t.entries c.name ∧ c.kind.Refuses takers d := by
  cases heffect with
  | idle => exact absurd rfl hne
  | added prepares free inserts =>
    exact ⟨_, _, (mem_inserted inserts).mpr (.inl rfl), refused_new hfit hs
      ((unfit_congr (alike_of_prepares hfit prepares)).mpr hspoils) _⟩
  | updated stored proposes =>
    exact ⟨_, _, written_of_ne hk stored hne, refused_stamped hs
      (refused_proposed h hfit hs hl (hall _ _ stored) hk stored proposes hspoils) _⟩
  | pruned => exact hspoils.elim
  | assigned granted normal hchanges unshared =>
    obtain ⟨⟨k, d⟩, hd, hmeant⟩ := assigned_of_ne hne
    refine ⟨_, _, assigned_mem hd hmeant _, refused_stamped hs ?_ _⟩
    rw [hchanges]
    exact EntityKind.refused_plan h hfit hs hl (regives_submitted hs _ _ _) (hall _ _ hd)
      ((planSpoils_congr (hfit.normal _ _ normal)).mpr hspoils)
  | deleted id => exact hspoils.elim
  | deletedListed granted => exact hspoils.elim

end Effects

end Collection

end Registrar
