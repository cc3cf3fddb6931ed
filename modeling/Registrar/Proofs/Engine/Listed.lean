import Registrar.Proofs.Engine.Dangling
import Registrar.Proofs.Engine.Deltas
import Registrar.Proofs.Engine.Hiding

/-!
# Operations on listed entities

Deleting and assigning go by a list of ids. The policy narrows it to the ids that it grants, the
store looks for documents with these, and the filter of the policy takes part in the search. All
together the documents that are hit are those with listed ids that the policy accepts and the filter
admits, each once, however often an id is listed and whether or not there is a document with it.

An assignment writes what its properties name, as it stands in the canonical form of the template.
References to missing entities are taken out of this only for relations that the properties name as
they are spelled. A property with blanks around it leads to its field all the same; then the
relation is **overlooked**, and the ids are written as they are, also those of missing entities.

* `Collection.hits`: the documents that are hit.
* `Collection.Deleted`, `deleted_of_ok`: what deleting listed entities leaves.
* `Collection.Overlooks`, `Collection.Strays`: relations that are written and not pruned.
* `Collection.Receives`: what an assignment does to a document.
* `Collection.Assigned`, `assigned_of_ok`: what an assignment leaves.
-/

namespace Registrar

namespace Collection

variable {E : Type} {c : Collection E} {caller : Caller} {w : Surroundings} {s t : Store}
  {listed ids : List Uuid} {n : Nat}

/-! ### The documents that are hit -/

/-- **The documents that are hit**: their ids are listed, the policy accepts them, and its filter
admits them. -/
def hits (c : Collection E) (caller : Caller) (listed : List Uuid) (e : Uuid × Document) : Bool :=
  decide (e.1 ∈ listed) && c.policy.accepts caller c.name e.1 &&
    Filter.admits (c.policy.visibility c.name caller) e.2

theorem hits_iff {e : Uuid × Document} :
    c.hits caller listed e = true ↔ e.1 ∈ listed ∧ c.policy.grants c.name e.1 caller = .ok true ∧
      Filter.admits (c.policy.visibility c.name caller) e.2 = true := by
  have haccepts : c.policy.accepts caller c.name e.1 = true ↔
      c.policy.grants c.name e.1 caller = .ok true := by
    rw [AccessPolicy.accepts]
    cases c.policy.grants c.name e.1 caller <;> simp
  rw [hits, Bool.and_eq_true, Bool.and_eq_true, decide_eq_true_iff, haccepts, and_assoc]

/-- **What is hit is what the store looks for.** -/
theorem meets_visibleAmong (hk : s.Keyed)
    (hgranted : c.policy.grantedAmong c.name caller listed = .ok ids) {e : Uuid × Document}
    (he : e ∈ s.entries c.name) :
    Entries.meets (c.visibleAmong caller ids) e = c.hits caller listed e := by
  rw [Bool.eq_iff_iff, hits_iff, ← and_assoc, ← AccessPolicy.mem_grantedAmong hgranted,
    Entries.meets, visibleAmong, holds_visible_iff, Filter.hasIdIn_holds ((hk c.name).id e he)]

theorem matched_visibleAmong (hk : s.Keyed)
    (hgranted : c.policy.grantedAmong c.name caller listed = .ok ids) :
    s.matched (c.visibleAmong caller ids) c.name =
      ((s.entries c.name).filter (c.hits caller listed)).length :=
  congrArg List.length (List.filter_congr fun _ he => meets_visibleAmong hk hgranted he)

theorem hits_of_granted_nil (hgranted : c.policy.grantedAmong c.name caller listed = .ok [])
    (e : Uuid × Document) : c.hits caller listed e = false := by
  refine Bool.eq_false_iff.mpr fun hhit => ?_
  obtain ⟨hlisted, hgrants, -⟩ := hits_iff.mp hhit
  exact List.not_mem_nil ((AccessPolicy.mem_grantedAmong hgranted e.1).mpr ⟨hlisted, hgrants⟩)

theorem ok_write (call : StoreCall) {place : String} {a : call.Result}
    (hwrite : call.isWrite = true)
    (h : (OperationM.inPlace place (StoreM.check >>= fun _ => StoreM.call call)).run.Runs w s
      (.ok a) t) : s.Replies call (.ok a) t := by
  rcases (runs_inPlace _ _).mp h with ⟨a', hrun, ha⟩ | ⟨e, -, he⟩
  · cases ha
    rcases (runs_bindE _ _).mp hrun with ⟨_, u, hcheck, hcall⟩ | ⟨e, -, he⟩
    · obtain ⟨-, rfl⟩ := runs_check.mp hcheck
      exact ((runs_call call).mp hcall).replies hwrite
    · cases he
  · cases he

/-! ### Deleting -/

/-- **What deleting listed entities leaves**: everything but the documents that are hit. -/
structure Deleted (c : Collection E) (caller : Caller) (s : Store) (listed : List Uuid) (n : Nat)
    (t : Store) : Prop where
  number : n = ((s.entries c.name).filter (c.hits caller listed)).length
  left : t.entries c.name = (s.entries c.name).filter fun e => !c.hits caller listed e
  others : ∀ name, name ≠ c.name → t.entries name = s.entries name

/-- **Deleting listed entities** that succeeds deletes just what is hit. -/
theorem deleted_of_ok (hk : s.Keyed)
    (h : (c.deleteListed caller listed).run.Runs w s (.ok n) t) :
    c.Deleted caller s listed n t := by
  obtain ⟨ids, hgranted, h⟩ := (tells_granted listed _).ok h
  split at h
  · rename_i hempty
    obtain rfl := List.isEmpty_iff.mp hempty
    have hnone : c.hits caller listed = fun _ => false := funext (hits_of_granted_nil hgranted)
    obtain ⟨hn, rfl⟩ := h
    cases hn
    exact ⟨by simp [hnone], by simp [hnone], fun _ _ => rfl⟩
  · obtain ⟨hn, rfl⟩ := Prod.mk.inj (ok_write (.deleteAll _ _) rfl h)
    obtain rfl := Except.ok.inj hn
    refine ⟨matched_visibleAmong hk hgranted, ?_, fun name hname => ?_⟩
    · rw [Store.deleteAll, Store.entries_modify _ _ _ rfl, if_pos rfl, Entries.deleteAll]
      exact List.filter_congr fun e he => by rw [meets_visibleAmong hk hgranted he]
    · rw [Store.deleteAll, Store.entries_modify _ _ _ rfl, if_neg hname]

/-! ### Stamps -/

theorem keys_stampsAt_sublist (c : Collection E) (caller : Caller) (now : Int64) :
    ((c.stampsAt caller now).map Prod.fst).Sublist (c.schema.fields.map Field.name) := by
  rw [stampsAt]
  induction c.schema.fields with
  | nil => exact List.Sublist.refl _
  | cons f fs ih =>
    rw [List.filterMap_cons]
    cases f.role with
    | updatedAt => exact ih.cons_cons _
    | updatedBy => exact ih.cons_cons _
    | _ => exact ih.cons _

theorem value?_stampsAt (hs : c.schema.Lawful) {now : Int64} {p : String × Value}
    (hp : p ∈ c.stampsAt caller now) (changes : Changes) (d : Document) :
    ((c.withVersion { sets := changes ++ c.stampsAt caller now }).apply d).value? p.1 =
      some p.2 := by
  obtain ⟨f, hf, hrole, hname⟩ := c.mem_stampsAt caller hp
  have hversion : f.role ≠ .version := by rcases hrole with h | h <;> rw [h] <;> exact nofun
  obtain ⟨before, after, hsplit⟩ := List.append_of_mem hp
  have hnodup := hs.nodup.sublist (c.keys_stampsAt_sublist caller now)
  rw [hsplit, List.map_append, List.map_cons, List.nodup_append, List.nodup_cons] at hnodup
  have hlater : ∀ q ∈ after, p.1 ≠ Text.headSegment q.1 := by
    intro q hq heq
    have hmem : q ∈ c.stampsAt caller now := by
      rw [hsplit]
      exact List.mem_append_right _ (List.mem_cons_of_mem p hq)
    obtain ⟨g, hg, -, hgname⟩ := c.mem_stampsAt caller hmem
    rw [hgname, Schema.headSegment_name hs hg, ← hgname] at heq
    exact hnodup.2.1.1 (heq ▸ List.mem_map_of_mem hq)
  rw [hname, value?_versioned hs hf hversion, hsplit, ← List.append_assoc, ← hname]
  exact Document.value?_sets_of_last (hname ▸ hs.dotless f hf) _ hlater d

end Collection

/-! ### Properties -/

theorem Text.mem_of_mem_trim {x : String} {ch : Char} (h : ch ∈ (Text.trim x).toList) :
    ch ∈ x.toList := by
  rw [Text.toList_trim, Text.trimChars, List.mem_reverse] at h
  have hright := (List.dropWhile_sublist _).subset h
  rw [List.mem_reverse] at hright
  exact (List.dropWhile_sublist _).subset hright

namespace Schema

variable {sc : Schema} {g : Field} {properties : List String} {patch d : Document}

theorem leafIn?_of_dotless {p : String} (h : '.' ∉ p.toList) : leafIn? g p = none := by
  rw [leafIn?, Text.cutPath_eq_none_iff.mpr (mt Text.mem_of_mem_trim h), Option.map_none]

theorem plannedNames_nil (sc : Schema) (properties : List String) :
    sc.plannedNames properties [] = properties := by
  rw [plannedNames, uncovered_nil, List.nil_append]

/-- **Properties without dots** are planned as wholes. -/
theorem plansWhole_of_properties (hs : sc.Lawful) (hdot : ∀ p ∈ properties, '.' ∉ p.toList)
    (hg : g ∈ sc.fields) {existing : Option Document}
    (h : sc.Names properties g ∨ sc.Follows properties g) :
    sc.PlansWhole properties [] existing g := by
  refine (plansWhole_iff hs hg).mpr ?_
  rw [plannedNames_nil]
  refine h.symm.imp_right fun hnames => ⟨hnames, .inr fun hparts => ?_⟩
  obtain ⟨p, hp, hreach⟩ := hnames
  exact hparts.2 p hp hreach (leafIn?_of_dotless (hdot p hp))

end Schema

namespace Collection

variable {E : Type} {c : Collection E} {caller : Caller} {w : Surroundings} {s t : Store}
  {f : Field} {r : Relation} {properties : List String} {d d' : Document} {e' : E}

/-! ### Relations that are overlooked -/

/-- **A relation is overlooked**: references are to be pruned before writing, but no property stands
for the relation of the field as it is spelled. -/
def Overlooks (c : Collection E) (properties : List String) (f : Field) : Prop :=
  c.settings.lookupOnUpdate = true ∧
    ∃ r ∈ c.schema.relations, f.name = r.idField ∧
      r ∉ c.schema.chosenRelations (some properties)

/-- The template as it has to be written, without references to missing entities. -/
def prunedTemplate (c : Collection E) (s : Store) (e' : E) : Document :=
  c.submitted s c.settings.lookupOnUpdate none (c.kind.toDocument e')

/-- **What is not overlooked is pruned.** -/
theorem value?_patchOf_of_not (hl : c.schema.Linked) (h : ¬ c.Overlooks properties f) (e' : E) :
    (c.patchOf s properties e').value? f.name = (c.prunedTemplate s e').value? f.name := by
  rw [patchOf, prunedTemplate]
  by_cases hrelation : ∃ r ∈ c.schema.relations, f.name = r.idField
  · obtain ⟨r, hr, hname⟩ := hrelation
    cases hlookup : c.settings.lookupOnUpdate with
    | false => rw [Bool.and_false]; rfl
    | true =>
      have hchosen : r ∈ c.schema.chosenRelations (some properties) := by
        by_contra hnot
        exact h ⟨hlookup, r, hr, hname, hnot⟩
      rw [touchesRelation_of_chosen hchosen, Bool.true_and, submitted, submitted, if_pos rfl,
        if_pos rfl, hname, Schema.value?_prunedIn_of_chosen hl hchosen]
  · have hother : ∀ r ∈ c.schema.relations, f.name ≠ r.idField := fun r hr heq =>
      hrelation ⟨r, hr, heq⟩
    rw [value?_submitted hother, value?_submitted hother]

/-- **What is overlooked is not pruned.** -/
theorem value?_patchOf_of_overlooks (hl : c.schema.Linked) (h : c.Overlooks properties f) (e' : E) :
    (c.patchOf s properties e').value? f.name = (c.kind.toDocument e').value? f.name := by
  obtain ⟨-, r, hr, hname, hnot⟩ := h
  rw [patchOf, submitted]
  split
  · refine Schema.value?_prunedIn fun x hx heq => hnot ?_
    rwa [List.inj_on_of_nodup_map hl.nodup hr (Schema.mem_chosenRelations hx)
      (hname.symm.trans heq)]
  · rfl

/-- **Only properties with blanks around them** are overlooked. -/
theorem Overlooks.padded (hknown : c.schema.KnowsRelations) (h : c.Overlooks properties f)
    {p : String} (hp : p ∈ properties) (hdot : '.' ∉ p.toList)
    (hreach : c.schema.reached? p = some f) : Text.trim p ≠ p := by
  obtain ⟨-, r, hr, hname, hnot⟩ := h
  intro htrim
  have hfound := (Option.filter_eq_some_iff.mp hreach).1
  rw [htrim, Text.headSegment_of_dotless hdot] at hfound
  have hkey : nameKey f.name = nameKey p := by simpa using List.find?_some hfound
  rw [hname] at hkey
  refine hnot (List.mem_filter.mpr ⟨hr, List.any_eq_true.mpr ⟨p, hp, ?_⟩⟩)
  rw [← Schema.relation?_congr hkey, hknown r hr, Option.map_some, decide_eq_true_iff]

/-- **Pruning makes a difference** just if some id dangles. -/
theorem valueOrNull_prunedTemplate_iff (hl : c.schema.Linked) (hr : r ∈ c.schema.relations)
    (hlookup : c.settings.lookupOnUpdate = true) (e' : E) :
    (c.kind.toDocument e').valueOrNull r.idField =
        (c.prunedTemplate s e').valueOrNull r.idField ↔
      ∀ id ∈ r.targetIds (c.kind.toDocument e'), s.Has r.target id := by
  have hkept : (∀ id ∈ r.targetIds (c.kind.toDocument e'), s.Has r.target id) ↔
      r.keptIn s (c.kind.toDocument e') = r.targetIds (c.kind.toDocument e') := by
    rw [Relation.keptIn_eq, List.filter_eq_self]
    exact forall₂_congr fun id _ => decide_eq_true_iff.symm
  have hpruned : (c.prunedTemplate s e').value? r.idField =
      (r.prunedIn s (c.kind.toDocument e')).value? r.idField := by
    rw [prunedTemplate, submitted, hlookup, if_pos rfl]
    exact Schema.value?_foldl_prunedIn_self hl.nodup hr _
  rw [hkept, Document.valueOrNull, Document.valueOrNull, hpruned]
  constructor
  · intro hsame
    rw [← Relation.targetIds_prunedIn, Relation.targetIds, Relation.targetIds,
      Document.valueOrNull, Document.valueOrNull, hsame]
  · intro hsame
    rw [Relation.prunedIn_of_kept hsame]

/-- **A relation strays** if it is overlooked and the template refers to a missing entity by it. -/
def Strays (c : Collection E) (s : Store) (properties : List String) (e' : E) (f : Field) : Prop :=
  c.Overlooks properties f ∧ ∃ r ∈ c.schema.relations, f.name = r.idField ∧
    ∃ id ∈ r.targetIds (c.kind.toDocument e'), ¬ s.Has r.target id

/-- **What is written is pruned** just if it does not stray. -/
theorem valueOrNull_patchOf_iff (hl : c.schema.Linked) (e' : E) :
    (c.patchOf s properties e').valueOrNull f.name = (c.prunedTemplate s e').valueOrNull f.name ↔
      ¬ c.Strays s properties e' f := by
  by_cases hover : c.Overlooks properties f
  · have hunpruned : (c.patchOf s properties e').valueOrNull f.name =
        (c.kind.toDocument e').valueOrNull f.name := by
      rw [Document.valueOrNull, Document.valueOrNull, value?_patchOf_of_overlooks hl hover]
    obtain ⟨hlookup, r, hr, hname, -⟩ := id hover
    rw [hunpruned, hname, valueOrNull_prunedTemplate_iff hl hr hlookup]
    constructor
    · rintro hall ⟨-, r', hr', hname', id, hid, hmissing⟩
      obtain rfl := List.inj_on_of_nodup_map hl.nodup hr hr' (hname.symm.trans hname')
      exact hmissing (hall id hid)
    · intro hstray id hid
      by_contra hmissing
      exact hstray ⟨hover, r, hr, hname, id, hid, hmissing⟩
  · refine iff_of_true ?_ fun hstray => hover hstray.1
    rw [Document.valueOrNull, Document.valueOrNull, value?_patchOf_of_not hl hover]

/-! ### Assigning -/

/-- **What an assignment does to a document**: it writes what its properties name, as it stands in
the template, and tells that it did. -/
structure Receives (c : Collection E) (caller : Caller) (s : Store) (properties : List String)
    (e' : E) (now : Int64) (d d' : Document) : Prop where
  /-- Fields that are named, or computed from named ones, hold what the template has, without
  references to missing entities unless they stray. -/
  written : ∀ f ∈ c.schema.fields, c.schema.Names properties f ∨ c.schema.Follows properties f →
    (d'.value? f.name = some ((c.prunedTemplate s e').valueOrNull f.name) ↔
      ¬ c.Strays s properties e' f)
  /-- Fields that stray hold all that the template has. -/
  strayed : ∀ f ∈ c.schema.fields, c.schema.Names properties f → c.Strays s properties e' f →
    d'.value? f.name = some ((c.kind.toDocument e').valueOrNull f.name)
  /-- All the rest stays, up to the stamps. -/
  others : ∀ name, (∀ f ∈ c.schema.fields, f.name = name → f.isStamp = false ∧
    ¬ c.schema.Names properties f ∧ ¬ c.schema.Follows properties f) →
      d'.value? name = d.value? name
  stamped : ∀ p ∈ c.stampsAt caller now, d'.value? p.1 = some p.2
  version : ∀ field, c.schema.versionName? = some field → ∃ v,
    d.value? field = some (.int64 v) ∧ d'.value? field = some (.int64 (nextVersion v))

/-- **What an assignment leaves**: nothing new if it names no field, and otherwise the documents
that are hit with what they received. -/
structure Assigned (c : Collection E) (caller : Caller) (s : Store) (bulk : Assignment E) (n : Nat)
    (t : Store) : Prop where
  idle : (∀ f, ¬ c.schema.Names bulk.properties f) → n = 0 ∧ t = s
  number : ∀ f, c.schema.Names bulk.properties f →
    n = ((s.entries c.name).filter (c.hits caller bulk.ids)).length
  ids : (t.entries c.name).map Prod.fst = (s.entries c.name).map Prod.fst
  missed : ∀ e ∈ s.entries c.name, c.hits caller bulk.ids e = false → e ∈ t.entries c.name
  received : n ≠ 0 → ∃ e' now, (c.kind.normalize bulk.template).Gives e' ∧
    ∀ id d, (id, d) ∈ s.entries c.name → c.hits caller bulk.ids (id, d) = true →
      ∃ d', (id, d') ∈ t.entries c.name ∧ c.Receives caller s bulk.properties e' now d d'
  others : ∀ name, name ≠ c.name → t.entries name = s.entries name

/-- **An assignment that succeeds** was granted no id, or planned nothing, or its plan was written
to the documents that the store found. -/
theorem ok_assign (hk : s.Keyed) {bulk : Assignment E} {n : Nat}
    (h : (c.assign caller bulk).run.Runs w s (.ok n) t) :
    ∃ ids, c.policy.grantedAmong c.name caller bulk.ids = .ok ids ∧
      (ids = [] ∧ n = 0 ∧ t = s ∨ ∃ e' changes, (c.kind.normalize bulk.template).Gives e' ∧
        changes = c.schema.plan bulk.properties [] (c.patchOf s bulk.properties e') none ∧
        (changes = [] ∧ n = 0 ∧ t = s ∨ changes ≠ [] ∧
          n = s.matched (c.visibleAmong caller ids) c.name ∧
          ∃ now, t = c.assignedTo caller s ids (changes ++ c.stampsAt caller now))) := by
  obtain ⟨ids, hgranted, h⟩ := (tells_granted bulk.ids _).ok h
  refine ⟨ids, hgranted, ?_⟩
  split at h
  · rename_i hempty
    obtain ⟨hn, rfl⟩ := h
    cases hn
    exact .inl ⟨List.isEmpty_iff.mp hempty, rfl, rfl⟩
  · obtain ⟨e', he', h⟩ := (tells_ofDraws _).ok h
    obtain ⟨patch, rfl, h⟩ := (tells_prunedIf hk _ _ _ _).ok h
    refine .inr ⟨e', _, he', rfl, ?_⟩
    dsimp only at h
    split at h
    · rename_i hempty
      obtain ⟨hn, rfl⟩ := h
      cases hn
      exact .inl ⟨List.isEmpty_iff.mp hempty, rfl, rfl⟩
    · rename_i hchanges
      obtain ⟨_, -, h⟩ := (tells_refuseShared _ _).ok h
      obtain ⟨update, ⟨now, rfl⟩, h⟩ := (tells_stampedUpdate _).ok h
      obtain ⟨hn, rfl⟩ := Prod.mk.inj (ok_write (.updateAll _ _ _) rfl h)
      refine .inr ⟨fun hnil => hchanges ?_, Except.ok.inj hn, now, rfl⟩
      exact List.isEmpty_iff.mpr hnil

section

variable (hs : c.schema.Lawful) (hl : c.schema.Linked)

include hs hl in
theorem receives (hdot : ∀ p ∈ properties, '.' ∉ p.toList) {field : String}
    (hfield : c.schema.versionName? = some field) {v : Int64}
    (hv : d.value? field = some (.int64 v)) (h0 : 0 ≤ v.toInt) (hb : v.toInt ≤ lastVersion)
    {e' : E} {changes : Changes}
    (hchanges : changes = c.schema.plan properties [] (c.patchOf s properties e') none)
    (now : Int64) :
    c.Receives caller s properties e' now d
      ((c.withVersion { sets := changes ++ c.stampsAt caller now }).apply d) := by
  have hwritten : ∀ f ∈ c.schema.fields,
      c.schema.Names properties f ∨ c.schema.Follows properties f →
      ((c.withVersion { sets := changes ++ c.stampsAt caller now }).apply d).value? f.name =
        some ((c.patchOf s properties e').valueOrNull f.name) := by
    intro f hf hnamed
    have hstamp : f.isStamp = false := by
      rcases hnamed with ⟨_, -, hreach⟩ | hfollows
      · exact Schema.not_isStamp_of_reached? hreach
      · exact hfollows.not_isStamp
    rw [value?_stamped_of_not hs fun g hg hname => hs.eq_of_name_eq hg hf hname ▸ hstamp, hchanges]
    exact Schema.value?_plan_of_whole hs hf (Schema.plansWhole_of_properties hs hdot hf hnamed) _ d
  refine ⟨fun f hf hnamed => ?_, fun f hf hnames hstray => ?_, fun name hname => ?_,
    fun p hp => value?_stampsAt hs hp changes d, fun field' hfield' => ?_⟩
  · rw [hwritten f hf hnamed, Option.some.injEq, valueOrNull_patchOf_iff hl]
  · rw [hwritten f hf (.inl hnames), Document.valueOrNull, Document.valueOrNull,
      value?_patchOf_of_overlooks hl hstray.1]
  · rw [value?_stamped_of_not hs fun f hf heq => (hname f hf heq).1, hchanges]
    by_cases hknown : ∃ f ∈ c.schema.fields, f.name = name
    · obtain ⟨f, hf, rfl⟩ := hknown
      obtain ⟨-, hnames, hfollows⟩ := hname f hf rfl
      refine Schema.value?_plan_of_spared hs hf ?_ ?_ _ d
      · rwa [Schema.plannedNames_nil]
      · rwa [Schema.plannedNames_nil]
    · exact Schema.value?_plan_of_unknown hs fun f hf heq => hknown ⟨f, hf, heq⟩
  · rw [hfield] at hfield'
    cases hfield'
    refine ⟨v, hv, value?_versioned_next hs hfield rfl ?_ hv h0 hb⟩
    rw [hchanges]
    exact (Schema.permits_plan hs _ _ _ _).append (c.permitsAll_stampsAt caller hs now)

include hs hl in
/-- **Assigning to listed entities** that succeeds hits just what it has to. -/
theorem assigned_of_ok {field : String} (hfield : c.schema.versionName? = some field)
    (hk : s.Keyed) (hcounted : Counted field (s.entries c.name)) {bulk : Assignment E}
    (hdot : ∀ p ∈ bulk.properties, '.' ∉ p.toList) {n : Nat}
    (h : (c.assign caller bulk).run.Runs w s (.ok n) t) : c.Assigned caller s bulk n t := by
  obtain ⟨ids, hgranted, ⟨rfl, rfl, rfl⟩ | ⟨e', changes, he', hchanges, hcases⟩⟩ := ok_assign hk h
  · have hnone : c.hits caller bulk.ids = fun _ => false := funext (hits_of_granted_nil hgranted)
    exact ⟨fun _ => ⟨rfl, rfl⟩, fun _ _ => by simp [hnone], rfl, fun e he _ => he,
      fun hn => absurd rfl hn, fun _ _ => rfl⟩
  have hnil : changes = [] ↔ ∀ f, ¬ c.schema.Names bulk.properties f := by
    rw [hchanges, Schema.plan_eq_nil_iff hs, Schema.plannedNames_nil]
  rcases hcases with ⟨hempty, rfl, rfl⟩ | ⟨hchanged, rfl, now, rfl⟩
  · exact ⟨fun _ => ⟨rfl, rfl⟩, fun f hf => absurd hf (hnil.mp hempty f), rfl, fun e he _ => he,
      fun hn => absurd rfl hn, fun _ _ => rfl⟩
  · refine ⟨fun hnone => absurd (hnil.mpr hnone) hchanged,
      fun _ _ => matched_visibleAmong hk hgranted, ?_, fun e he hmiss => ?_,
      fun _ => ⟨e', now, he', fun id d hd hhit => ?_⟩, fun name hname => ?_⟩
    · rw [entries_assignedTo, Entries.map_fst_updateAll]
    · exact unassigned_mem he (by rwa [← meets_visibleAmong hk hgranted he] at hmiss) _
    · obtain ⟨v, hv, h0, hb⟩ := hcounted.version _ hd
      rw [← meets_visibleAmong hk hgranted hd] at hhit
      exact ⟨_, assigned_mem hd hhit _, receives hs hl hdot hfield hv h0 hb hchanges now⟩
    · rw [assignedTo, Store.updateAll, Store.entries_modify _ _ _ rfl, if_neg hname]

end

end Collection

end Registrar
