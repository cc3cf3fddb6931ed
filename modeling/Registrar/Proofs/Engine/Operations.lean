import Registrar.Proofs.Change.Fields
import Registrar.Proofs.Engine.Reading

/-!
# The operations of a collection, and what they write

Callers ask a collection for one of eleven **operations**. Whatever an operation is asked and
whatever it is told on its way, the only changes that it requests of the store are these: it
inserts a document under the document's own id and with version zero, it updates documents of its
collection without touching their ids and counts their versions up by one, or it deletes documents
of its collection.

* `Operation`, `Operation.program`: the operations.
* `Collection.Issues`: the requests just described.
* `issues_program`: an operation makes no other request.
-/

namespace Registrar

open Program

/-- **What callers ask of a collection.** -/
inductive Operation (E : Type) where
  | add (e : E)
  | get (id : Uuid) (lookup : Bool)
  | search (p : Inquiry)
  | update (e : E) (includeDependencies : Option Bool)
  | applyDelta (delta : Delta E)
  | assign (bulk : Assignment E)
  | deleteListed (ids : List Uuid)
  | delete (id : Uuid)
  | link (id : Uuid) (relation : String) (target : Uuid)
  | unlink (id : Uuid) (relation : String) (target : Uuid)
  | refer (id : Uuid) (relation : String) (target : Option Uuid)

/-- **What an operation gives back.** -/
inductive Answer (E : Type) where
  | added (e : E)
  | found (r : ReadReport E)
  | page (p : SearchPage E)
  | wrote (r : WriteReport)
  | number (n : Nat)
  | deleted
  | changed (b : Bool)

/-- **The program of an operation.** -/
def Operation.program {E : Type} (c : Collection E) (caller : Caller) :
    Operation E → OperationM (Answer E)
  | .add e => do return .added (← c.add caller e)
  | .get id lookup => do return .found (← c.get caller id lookup)
  | .search p => do return .page (← c.search caller p)
  | .update e dependencies => do return .wrote (← c.update caller e dependencies)
  | .applyDelta delta => do return .wrote (← c.applyDelta caller delta)
  | .assign bulk => do return .number (← c.assign caller bulk)
  | .deleteListed ids => do return .number (← c.deleteListed caller ids)
  | .delete id => do
    c.delete caller id
    return .deleted
  | .link id relation target => do return .changed (← c.link caller id relation target)
  | .unlink id relation target => do return .changed (← c.unlink caller id relation target)
  | .refer id relation target => do return .changed (← c.refer caller id relation target)

/-- **A lawful kind of entity**: its schema is lawful, and the document of an entity holds the
entity's id. -/
structure EntityKind.Lawful {E : Type} (k : EntityKind E) : Prop where
  schema : k.schema.Lawful
  id : ∀ e, (k.toDocument e).value? "id" = some (Value.ofUuid (k.id e))

/-! ### Fields that following relations leaves alone -/

/-- The relation writes nothing into the field. -/
def Relation.Avoids (r : Relation) (options : FollowOptions) (name : String) : Prop :=
  name ≠ r.idField ∧ (options.hydrate = true → name ≠ r.navigation)

theorem Relation.value?_lookup_of_avoids {r : Relation} {options : FollowOptions} {name : String}
    (h : r.Avoids options name) (found : Found) (hidden : List Uuid) (d : Document) :
    (r.lookup options found hidden d).1.value? name = d.value? name := by
  unfold lookup
  dsimp only
  split
  · rename_i hh
    rw [Document.value?_put_of_ne _ _ (h.2 hh)]
    split
    · exact Document.value?_put_of_ne d _ h.1
    · rfl
  · split
    · exact Document.value?_put_of_ne d _ h.1
    · rfl

/-- **What following relations leaves alone**, and what it reports as changed. -/
theorem Relation.yields_resolveAll {s : Schema} (hs : s.Lawful) (viewer : Viewer)
    (options : FollowOptions) {rs : List Relation} (hrs : ∀ r ∈ rs, r ∈ s.relations)
    (d : Document) {changes : Changes} (hc : s.PermitsAll changes) :
    (resolveAll viewer options rs d changes).run.Yields fun out =>
      (∀ name, (∀ r ∈ rs, r.Avoids options name) → out.1.value? name = d.value? name) ∧
        s.PermitsAll out.2 := by
  induction rs generalizing d changes with
  | nil => exact yields_pureE ⟨fun _ _ => rfl, hc⟩
  | cons r rs ih =>
    have hone : (r.resolve viewer options d).run.Yields fun out =>
        ∀ name, r.Avoids options name → out.1.value? name = d.value? name := by
      refine yields_bindE (yields_trivial _) fun found _ => ?_
      refine yields_bindE (yields_trivial _) fun hidden _ => yields_pureE fun name h => ?_
      exact value?_lookup_of_avoids h found hidden d
    refine yields_bindE hone fun out hout => ?_
    obtain ⟨d', pruned⟩ := out
    have hrest : ∀ changes : Changes, s.PermitsAll changes →
        (resolveAll viewer options rs d' changes).run.Yields fun out =>
          (∀ name, (∀ x ∈ r :: rs, x.Avoids options name) →
            out.1.value? name = d.value? name) ∧ s.PermitsAll out.2 := by
      intro changes hc
      refine Results.mono (ih (fun x hx => hrs x (List.mem_cons_of_mem r hx)) d' hc) ?_
      intro o ho a ha
      obtain ⟨h1, h2⟩ := ho a ha
      refine ⟨fun name hn => ?_, h2⟩
      rw [h1 name fun x hx => hn x (List.mem_cons_of_mem r hx)]
      exact hout name (hn r List.mem_cons_self)
    cases pruned with
    | none => exact hrest changes hc
    | some v => exact hrest _ (hc.put (hs.permits_reference (hrs r List.mem_cons_self)) v)

theorem Schema.mem_chosenRelations {s : Schema} {only : Option (List String)} {r : Relation}
    (h : r ∈ s.chosenRelations only) : r ∈ s.relations := by
  cases only with
  | none => exact h
  | some names => exact (List.mem_filter.mp h).1

theorem Schema.yields_resolve {s : Schema} (hs : s.Lawful) (viewer : Viewer)
    (options : FollowOptions) (only : Option (List String)) (d : Document) :
    (s.resolve viewer options only d).run.Yields fun out =>
      (∀ name, (∀ r ∈ s.chosenRelations only, r.Avoids options name) →
        out.1.value? name = d.value? name) ∧ s.PermitsAll out.2 :=
  Relation.yields_resolveAll hs viewer options (fun _ hr => mem_chosenRelations hr) d
    Schema.PermitsAll.nil

namespace Collection

variable {E : Type} (c : Collection E) (caller : Caller)

/-! ### Fields that adding leaves alone -/

theorem value?_withoutNavigation {g : Field} (hs : c.schema.Lawful) (hg : g ∈ c.schema.fields)
    (hr : g.role ≠ .navigation) (d : Document) :
    (c.withoutNavigation d).value? g.name = d.value? g.name := by
  refine List.foldlRecOn (motive := fun d' => Document.value? d' g.name = d.value? g.name) _ _ rfl
    fun d' hd' f hf => ?_
  obtain ⟨hm, hrole⟩ := List.mem_filter.mp hf
  have hne : g.name ≠ f.name := hs.name_ne hg hm (by rwa [of_decide_eq_true hrole])
  rw [Document.value?_without_of_ne d' hne, hd']

theorem value?_withLists {name : String} (hr : ∀ r ∈ c.schema.relations, name ≠ r.idField)
    (d : Document) : (c.withLists d).value? name = d.value? name := by
  refine List.foldlRecOn (motive := fun d' => Document.value? d' name = d.value? name) _ _ rfl
    fun d' hd' r hm => ?_
  split
  · rw [Document.value?_put_of_ne d' _ (hr r hm), hd']
  · exact hd'

theorem mem_stampsAt {now : Int64} {p : String × Value} (h : p ∈ c.stampsAt caller now) :
    ∃ f ∈ c.schema.fields, (f.role = .updatedAt ∨ f.role = .updatedBy) ∧ p.1 = f.name := by
  obtain ⟨f, hf, hp⟩ := List.mem_filterMap.mp h
  refine ⟨f, hf, ?_⟩
  split at hp
  · rename_i hr
    cases hp
    exact ⟨.inl hr, rfl⟩
  · rename_i hr
    cases hp
    exact ⟨.inr hr, rfl⟩
  · cases hp

theorem yields_stamps :
    (c.stamps caller).run.Yields fun stamps => ∃ now, stamps = c.stampsAt caller now :=
  yields_ofProgram fun now => ⟨now, rfl⟩

theorem permitsAll_stampsAt (hs : c.schema.Lawful) (now : Int64) :
    c.schema.PermitsAll (c.stampsAt caller now) := by
  intro p hp
  obtain ⟨f, hf, hr, hn⟩ := c.mem_stampsAt caller hp
  rw [hn]
  exact hs.permits_name hf (by rcases hr with hr | hr <;> rw [Field.isWritten, hr])

theorem name_ne_stamp {g : Field} (hs : c.schema.Lawful) (hg : g ∈ c.schema.fields)
    (hr : g.role ≠ .updatedAt ∧ g.role ≠ .updatedBy) {now : Int64} {p : String × Value}
    (hp : p ∈ c.stampsAt caller now) : g.name ≠ p.1 := by
  obtain ⟨f, hf, hrole, hname⟩ := c.mem_stampsAt caller hp
  rw [hname]
  refine hs.name_ne hg hf ?_
  rcases hrole with hrole | hrole <;> rw [hrole]
  · exact hr.1
  · exact hr.2

/-- A new document with its stamps and its version. -/
def stampedNewAt (now : Int64) (d : Document) : Document :=
  let stamped := (c.stampsAt caller now).foldl (fun d p => Document.put d p.1 p.2) d
  match c.schema.versionName? with
  | some field => stamped.put field (.int64 0)
  | none => stamped

theorem yields_stampedNew (d : Document) :
    (c.stampedNew caller d).run.Yields fun d' => ∃ now, d' = c.stampedNewAt caller now d := by
  refine yields_bindE (c.yields_stamps caller) fun stamps hst => yields_pureE ?_
  obtain ⟨now, rfl⟩ := hst
  exact ⟨now, rfl⟩

/-- **Stamping a new document** leaves the other fields alone. -/
theorem value?_stampedNewAt {g : Field} (hs : c.schema.Lawful) (hg : g ∈ c.schema.fields)
    (hr : g.role ≠ .updatedAt ∧ g.role ≠ .updatedBy ∧ g.role ≠ .version) (now : Int64)
    (d : Document) : (c.stampedNewAt caller now d).value? g.name = d.value? g.name := by
  have hstamped : ((c.stampsAt caller now).foldl (fun d p => Document.put d p.1 p.2) d).value?
      g.name = d.value? g.name := by
    refine List.foldlRecOn (motive := fun d' => Document.value? d' g.name = d.value? g.name) _ _ rfl
      fun d' hd' p hp => ?_
    rw [Document.value?_put_of_ne d' _ (c.name_ne_stamp caller hs hg ⟨hr.1, hr.2.1⟩ hp), hd']
  rw [stampedNewAt]
  split
  · rename_i field hv
    obtain ⟨f, hf, hrole, rfl⟩ := Schema.versionName?_eq_some hv
    rw [Document.value?_put_of_ne _ _ (hs.name_ne hg hf (by rw [hrole]; exact hr.2.2))]
    exact hstamped
  · exact hstamped

theorem version_stampedNewAt {name : String} (h : c.schema.versionName? = some name) (now : Int64)
    (d : Document) : (c.stampedNewAt caller now d).value? name = some (.int64 0) := by
  rw [stampedNewAt, h]
  exact Document.value?_put_self _ _ _

/-! ### What is requested -/

/-- **The requests of an operation**: of those that change the store, an insertion under the
document's own id, an update that counts versions up, and a deletion. -/
def Issues : Request → Prop
  | .store (.insert id d name) => name = c.name ∧ d.value? "id" = some (Value.ofUuid id) ∧
    ∀ field, c.schema.versionName? = some field → d.value? field = some (.int64 0)
  | .store (.updateFirst _ u name) | .store (.updateAll _ u name) => name = c.name ∧
    ∃ v : Update, v.incs = [] ∧ c.schema.PermitsAll v.sets ∧ u = c.withVersion v
  | .store (.deleteFirst _ name) | .store (.deleteAll _ name) => name = c.name
  | .store (.createCollection _) | .store (.dropCollection _) => False
  | _ => True

theorem issues_of_quiet {α : Type} {p : Program α} (h : p.Quiet) : p.Always c.Issues := by
  refine Always.mono h fun r hr => ?_
  cases r with
  | store call => cases call <;> first | exact trivial | cases hr
  | _ => exact trivial

theorem writeUpdate_steps (id : Uuid) (version : Option Int64) (u : Update) (place : String) :
    c.writeUpdate id version u place =
      OperationM.inPlace place (StoreM.check >>= fun _ =>
        StoreM.updateFirst (c.unchangedSince id version).1 (c.withVersion u) c.name) >>= fun n =>
      if n = 0 then
        if (c.unchangedSince id version).2 then throw (.concurrentModification id.text)
        else throw (.missing c.name id)
      else pure () := rfl

theorem issues_writeUpdate {u : Update} (hi : u.incs = []) (hu : c.schema.PermitsAll u.sets)
    (id : Uuid) (version : Option Int64) (place : String) :
    (c.writeUpdate id version u place).run.Always c.Issues := by
  refine always_bindE (always_inPlace ?_) fun n => c.issues_of_quiet ?_
  · exact always_bindE (c.issues_of_quiet quiet_check) fun _ =>
      always_call ⟨rfl, u, hi, hu, rfl⟩
  · split
    · split
      · exact always_throwE _
      · exact always_throwE _
    · exact always_pureE _

theorem yields_stampedUpdate (hs : c.schema.Lawful) {changes : Changes}
    (h : c.schema.PermitsAll changes) :
    (c.stampedUpdate caller changes).run.Yields fun u =>
      u.incs = [] ∧ c.schema.PermitsAll u.sets := by
  refine yields_bindE (c.yields_stamps caller) fun stamps hst => yields_pureE ?_
  obtain ⟨now, rfl⟩ := hst
  exact ⟨rfl, h.append (c.permitsAll_stampsAt caller hs now)⟩

theorem issues_writeStamped (hs : c.schema.Lawful) {changes : Changes}
    (h : c.schema.PermitsAll changes) (id : Uuid) (version : Option Int64) (place : String) :
    (c.writeStamped caller id version changes place).run.Always c.Issues :=
  always_bindE_of_yields (c.yields_stampedUpdate caller hs h)
    (c.issues_of_quiet (c.quiet_stampedUpdate caller changes)) fun _ hu =>
      c.issues_writeUpdate hu.1 hu.2 id version place

theorem add_eq (e : E) :
    c.add caller e =
      c.prepared e >>= fun e =>
      OperationM.inPlace (c.place "add") (entityExists c.name (c.kind.id e)) >>= fun taken =>
      (if taken then throw (.duplicateObject (c.kind.id e).text) else pure ()) >>= fun _ =>
      (if c.settings.validateUniqueNames then
        c.refuseTakenName (c.withoutNavigation (c.kind.toDocument e)) (c.kind.id e) (c.place "add")
        else pure ()) >>= fun _ =>
      OperationM.inPlace (c.place "add") (c.schema.resolve none ⟨true, false⟩ none
        (c.withLists (c.withoutNavigation (c.kind.toDocument e)))) >>= fun out =>
      c.stampedNew caller out.1 >>= fun d =>
      OperationM.inPlace (c.place "add") (StoreM.check >>= fun _ =>
        StoreM.insert (c.kind.id e) d c.name) >>= fun _ =>
      OperationM.inPlace (c.place "add") (c.ofDocument d) := by
  rw [add]
  refine bind_congr fun e => bind_congr fun taken => ?_
  cases taken <;> cases c.settings.validateUniqueNames <;> rfl

theorem issues_add (hk : c.kind.Lawful) (e : E) : (c.add caller e).run.Always c.Issues := by
  have hs : c.schema.Lawful := hk.schema
  rw [add_eq]
  refine always_bindE (c.issues_of_quiet (c.quiet_prepared e)) fun e => ?_
  refine always_bindE (c.issues_of_quiet (always_inPlace (quiet_entityExists _ _))) fun taken => ?_
  refine always_bindE ?_ fun _ => always_bindE ?_ fun _ => ?_
  · split
    · exact always_throwE _
    · exact always_pureE _
  · split
    · exact c.issues_of_quiet (c.quiet_refuseTakenName _ _ _)
    · exact always_pureE _
  have hid : ∀ r ∈ c.schema.relations, "id" ≠ r.idField := fun r hr =>
    hs.name_ne_reference hs.id FieldRole.noConfusion hr
  refine always_bindE_of_yields (yields_inPlace (c.schema.yields_resolve hs _ _ _ _))
    (c.issues_of_quiet (always_inPlace (c.schema.quiet_resolve _ _ _ _))) fun out hout => ?_
  refine always_bindE_of_yields (c.yields_stampedNew caller out.1)
    (c.issues_of_quiet (c.quiet_stampedNew caller _)) fun d hd => ?_
  obtain ⟨now, rfl⟩ := hd
  refine always_bindE (always_inPlace ?_) fun _ => always_inPlace (always_ofExcept _)
  refine always_bindE (c.issues_of_quiet quiet_check) fun _ => always_call ⟨rfl, ?_,
    fun name hname => c.version_stampedNewAt caller hname now out.1⟩
  calc (c.stampedNewAt caller now out.1).value? "id"
      = out.1.value? "id" := c.value?_stampedNewAt caller hs hs.id
          ⟨FieldRole.noConfusion, FieldRole.noConfusion, FieldRole.noConfusion⟩ now out.1
    _ = (c.withLists (c.withoutNavigation (c.kind.toDocument e))).value? "id" :=
        hout.1 "id" fun r hr => ⟨hid r (Schema.mem_chosenRelations hr), nofun⟩
    _ = (c.withoutNavigation (c.kind.toDocument e)).value? "id" := c.value?_withLists hid _
    _ = (c.kind.toDocument e).value? "id" :=
        c.value?_withoutNavigation hs hs.id FieldRole.noConfusion _
    _ = some (Value.ofUuid (c.kind.id e)) := hk.id e

theorem issues_get (hs : c.schema.Lawful) (id : Uuid) (lookup : Bool) :
    (c.get caller id lookup).run.Always c.Issues := by
  refine always_bindE (c.issues_of_quiet (c.quiet_load caller id _)) fun d => ?_
  split
  · refine always_bindE_of_yields (yields_inPlace (c.schema.yields_resolve hs _ _ _ _))
      (c.issues_of_quiet (always_inPlace (c.schema.quiet_resolve _ _ _ _))) fun out hout => ?_
    refine always_bindE ?_ fun _ => always_bindE (always_inPlace (always_ofExcept _)) fun _ =>
      always_pureE _
    rw [persistPruned]
    split
    · exact always_bind (c.issues_writeUpdate rfl hout.2 id _ _) fun _ => trivial
    · exact always_pureE _
  · exact always_bindE (always_inPlace (always_ofExcept _)) fun _ => always_pureE _

theorem commit_eq (id : Uuid) (existing : Document) (changes : Changes) (place : String) :
    c.commit caller id existing changes place =
      if changes.isEmpty then pure ⟨id, []⟩
      else
        (if c.settings.validateUniqueNames then c.refuseTakenRename changes id place
          else pure ()) >>= fun _ =>
        c.writeStamped caller id (c.knownVersion existing) changes place >>= fun _ =>
        pure ⟨id, changes.keys⟩ := by
  rw [commit]
  cases c.settings.validateUniqueNames <;> rfl

theorem issues_commit (hs : c.schema.Lawful) {changes : Changes}
    (h : c.schema.PermitsAll changes) (id : Uuid) (existing : Document) (place : String) :
    (c.commit caller id existing changes place).run.Always c.Issues := by
  rw [commit_eq]
  split
  · exact always_pureE _
  · refine always_bindE ?_ fun _ =>
      always_bindE (c.issues_writeStamped caller hs h id _ place) fun _ => always_pureE _
    split
    · exact c.issues_of_quiet (c.quiet_refuseTakenRename changes id place)
    · exact always_pureE _

theorem issues_update (hs : c.schema.Lawful) (e : E) (dependencies : Option Bool) :
    (c.update caller e dependencies).run.Always c.Issues := by
  refine always_bindE (c.issues_of_quiet (c.quiet_load caller _ _)) fun d => ?_
  refine always_bindE (c.issues_of_quiet (always_ofProgram (quiet_ofDraws _))) fun e => ?_
  refine always_bindE (c.issues_of_quiet (c.quiet_prunedIf _ _ _ _)) fun proposed => ?_
  exact c.issues_commit caller hs (Schema.permits_diff hs _ _ _) _ _ _

theorem issues_applyDelta (hs : c.schema.Lawful) (delta : Delta E) :
    (c.applyDelta caller delta).run.Always c.Issues := by
  refine always_bindE (c.issues_of_quiet (c.quiet_load caller _ _)) fun d => ?_
  split
  · exact always_pureE _
  · refine always_bindE (c.issues_of_quiet (always_ofProgram (quiet_ofDraws _))) fun e => ?_
    refine always_bindE (c.issues_of_quiet (c.quiet_prunedIf _ _ _ _)) fun patch => ?_
    exact c.issues_commit caller hs (Schema.permits_plan hs _ _ _ _) _ _ _

theorem issues_assign (hs : c.schema.Lawful) (bulk : Assignment E) :
    (c.assign caller bulk).run.Always c.Issues := by
  refine always_bindE (c.issues_of_quiet (always_inPlace (always_ofExcept _))) fun ids => ?_
  split
  · exact always_pureE _
  refine always_bindE (c.issues_of_quiet (always_ofProgram (quiet_ofDraws _))) fun e => ?_
  refine always_bindE (c.issues_of_quiet (c.quiet_prunedIf _ _ _ _)) fun patch => ?_
  dsimp only
  split
  · exact always_pureE _
  refine always_bindE (c.issues_of_quiet (c.quiet_refuseShared _ _)) fun _ => ?_
  refine always_bindE_of_yields (c.yields_stampedUpdate caller hs (Schema.permits_plan hs _ _ _ _))
    (c.issues_of_quiet (c.quiet_stampedUpdate caller _)) fun u hu => ?_
  exact always_inPlace (always_bindE (c.issues_of_quiet quiet_check) fun _ =>
    always_call ⟨rfl, u, hu.1, hu.2, rfl⟩)

theorem issues_deleteListed (ids : List Uuid) :
    (c.deleteListed caller ids).run.Always c.Issues := by
  refine always_bindE (c.issues_of_quiet (always_inPlace (always_ofExcept _))) fun ids => ?_
  split
  · exact always_pureE _
  · exact always_inPlace (always_bindE (c.issues_of_quiet quiet_check) fun _ => always_call rfl)

theorem issues_delete (id : Uuid) : (c.delete caller id).run.Always c.Issues := by
  refine always_bindE (c.issues_of_quiet (c.quiet_load caller _ _)) fun d => ?_
  refine always_bindE (always_inPlace ?_) fun n => ?_
  · exact always_bindE (c.issues_of_quiet quiet_check) fun _ => always_call rfl
  · split
    · exact always_throwE _
    · exact always_pureE _

/-! ### References -/

theorem yields_relation (name : String) (cardinality : Cardinality) :
    (c.relation name cardinality).run.Yields fun r =>
      r ∈ c.schema.relations ∧ r.cardinality = cardinality := by
  rw [relation]
  split
  · rename_i r hr
    obtain ⟨hf, hc⟩ := Option.filter_eq_some_iff.mp hr
    exact yields_pureE ⟨List.mem_of_find?_eq_some hf, of_decide_eq_true hc⟩
  · exact yields_throwE _ _

theorem issues_writeReferences (hs : c.schema.Lawful) {r : Relation} (hr : r ∈ c.schema.relations)
    (id : Uuid) (existing : Document) (value : Value) (place : String) :
    (c.writeReferences caller id existing r value place).run.Always c.Issues := by
  refine always_bindE (c.issues_writeStamped caller hs ?_ id _ place) fun _ => always_pureE _
  intro p hp
  rw [List.mem_singleton.mp hp]
  exact hs.permits_reference hr

theorem issues_link (hs : c.schema.Lawful) (id : Uuid) (relation : String) (target : Uuid) :
    (c.link caller id relation target).run.Always c.Issues := by
  refine always_bindE_of_yields (c.yields_relation _ _)
    (c.issues_of_quiet (c.quiet_relation _ _)) fun r hr => ?_
  refine always_bindE (c.issues_of_quiet (c.quiet_load caller _ _)) fun d => ?_
  dsimp only
  split
  · exact always_pureE _
  · refine always_bindE (c.issues_of_quiet (quiet_requireTarget _ _ _)) fun _ => ?_
    exact c.issues_writeReferences caller hs hr.1 _ _ _ _

theorem issues_unlink (hs : c.schema.Lawful) (id : Uuid) (relation : String) (target : Uuid) :
    (c.unlink caller id relation target).run.Always c.Issues := by
  refine always_bindE_of_yields (c.yields_relation _ _)
    (c.issues_of_quiet (c.quiet_relation _ _)) fun r hr => ?_
  refine always_bindE (c.issues_of_quiet (c.quiet_load caller _ _)) fun d => ?_
  dsimp only
  split
  · exact c.issues_writeReferences caller hs hr.1 _ _ _ _
  · exact always_pureE _

theorem issues_refer (hs : c.schema.Lawful) (id : Uuid) (relation : String)
    (target : Option Uuid) : (c.refer caller id relation target).run.Always c.Issues := by
  refine always_bindE_of_yields (c.yields_relation _ _)
    (c.issues_of_quiet (c.quiet_relation _ _)) fun r hr => ?_
  refine always_bindE (c.issues_of_quiet (c.quiet_load caller _ _)) fun d => ?_
  split
  · exact always_pureE _
  · cases target with
    | some t =>
      refine always_bindE (c.issues_of_quiet (quiet_requireTarget _ _ _)) fun _ => ?_
      exact c.issues_writeReferences caller hs hr.1 _ _ _ _
    | none => exact c.issues_writeReferences caller hs hr.1 _ _ _ _

/-- **An operation requests no other changes**, whatever it is told on its way. -/
theorem issues_program (hk : c.kind.Lawful) (op : Operation E) :
    (op.program c caller).run.Always c.Issues := by
  have hs : c.schema.Lawful := hk.schema
  cases op with
  | add e => exact always_bindE (c.issues_add caller hk e) fun _ => always_pureE _
  | get id lookup => exact always_bindE (c.issues_get caller hs id lookup) fun _ => always_pureE _
  | search p =>
    exact always_bindE (c.issues_of_quiet (c.quiet_search caller p)) fun _ => always_pureE _
  | update e dependencies =>
    exact always_bindE (c.issues_update caller hs e dependencies) fun _ => always_pureE _
  | applyDelta delta =>
    exact always_bindE (c.issues_applyDelta caller hs delta) fun _ => always_pureE _
  | assign bulk => exact always_bindE (c.issues_assign caller hs bulk) fun _ => always_pureE _
  | deleteListed ids => exact always_bindE (c.issues_deleteListed caller ids) fun _ => always_pureE _
  | delete id => exact always_bindE (c.issues_delete caller id) fun _ => always_pureE _
  | link id relation target =>
    exact always_bindE (c.issues_link caller hs id relation target) fun _ => always_pureE _
  | unlink id relation target =>
    exact always_bindE (c.issues_unlink caller hs id relation target) fun _ => always_pureE _
  | refer id relation target =>
    exact always_bindE (c.issues_refer caller hs id relation target) fun _ => always_pureE _

end Collection

end Registrar
