import Registrar.Proofs.Engine.Ceiling
import Registrar.Proofs.Engine.Guarded

/-!
# Signatures

Every write of an operation carries the stamps of its caller, and so the field that tells who wrote
last is signed with the caller's. There is one exception: what a look-up writes back when it has
pruned references is not signed. So the signature in a document is that of the last caller who
meant to write it.

* `Operation.isAdd`, `Operation.signs`: operations that add, and that sign what is there already.
* `Collection.Makes`: the writes of an operation, in the form in which it requests them.
* `makes_program`: an operation requests no other writes.
* `Makes.signed`: what an operation writes, it signs, unless it is a look-up.
-/

namespace Registrar

open Program

variable {E : Type}

/-- The operation adds an entity. -/
def Operation.isAdd : Operation E → Bool
  | .add _ => true
  | _ => false

/-- **The operation signs** the documents that it finds and writes. -/
def Operation.signs : Operation E → Bool
  | .update _ _ | .applyDelta _ | .assign _ | .link _ _ _ | .unlink _ _ _ | .refer _ _ _ => true
  | _ => false

theorem Operation.isAdd_of_signs {op : Operation E} (h : op.signs = true) : op.isAdd = false := by
  cases op with
  | add e => cases h
  | _ => rfl

theorem Operation.isGet_of_signs {op : Operation E} (h : op.signs = true) : op.isGet = false := by
  cases op with
  | get id lookup => cases h
  | _ => rfl

theorem Request.not_concerns_of_isQuiet {r : Request} (h : r.isQuiet = true) {s : Store}
    {name : String} {id : Uuid} : ¬ r.Concerns s name id := by
  cases r with
  | store call => cases call <;> first | exact not_false | cases h
  | _ => exact not_false

/-- Only fields of relations are changed. -/
def Schema.Refers (s : Schema) (changes : Changes) : Prop :=
  ∀ p ∈ changes, ∃ r ∈ s.relations, p.1 = r.idField

theorem Schema.Refers.put {s : Schema} {changes : Changes} (h : s.Refers changes) {r : Relation}
    (hr : r ∈ s.relations) (v : Value) : s.Refers (Document.put changes r.idField v) := by
  intro p hp
  rcases Schema.mem_put hp with rfl | hp
  · exact ⟨r, hr, rfl⟩
  · exact h p hp

theorem Relation.yields_refers {s : Schema} (viewer : Viewer) (options : FollowOptions)
    {rs : List Relation} (hrs : ∀ r ∈ rs, r ∈ s.relations) (d : Document) {changes : Changes}
    (hc : s.Refers changes) :
    (resolveAll viewer options rs d changes).run.Yields fun out => s.Refers out.2 := by
  induction rs generalizing d changes with
  | nil => exact yields_pureE hc
  | cons r rs ih =>
    have htail : ∀ x ∈ rs, x ∈ s.relations := fun x hx => hrs x (List.mem_cons_of_mem r hx)
    refine yields_bindE (yields_trivial _) fun out _ => ?_
    obtain ⟨d', pruned⟩ := out
    cases pruned with
    | none => exact ih htail d' hc
    | some v => exact ih htail d' (hc.put (hrs r List.mem_cons_self) v)

namespace Collection

variable {c : Collection E} {caller : Caller} {op : Operation E}

/-! ### What is requested -/

/-- **The writes of an operation**, in the form in which it requests them. -/
inductive Makes (c : Collection E) (caller : Caller) : Operation E → Request → Prop
  | reads {op : Operation E} {r : Request} (quiet : r.isQuiet = true) : Makes c caller op r
  | inserts {e : E} (id : Uuid) (d : Document) (now : Int64) :
      Makes c caller (.add e) (.store (.insert id (c.stampedNewAt caller now d) c.name))
  | signs {op : Operation E} (signs : op.signs = true) (f : Filter) {changes : Changes}
      (permits : c.schema.PermitsAll changes) (now : Int64) :
      Makes c caller op (.store (.updateFirst f
        (c.withVersion { sets := changes ++ c.stampsAt caller now }) c.name))
  | signsAll {op : Operation E} (signs : op.signs = true) (f : Filter) {changes : Changes}
      (permits : c.schema.PermitsAll changes) (now : Int64) :
      Makes c caller op (.store (.updateAll f
        (c.withVersion { sets := changes ++ c.stampsAt caller now }) c.name))
  | prunes (id : Uuid) (f : Filter) {changes : Changes} (refers : c.schema.Refers changes) :
      Makes c caller (.get id true)
        (.store (.updateFirst f (c.withVersion { sets := changes }) c.name))
  | deletes (id : Uuid) (f : Filter) :
      Makes c caller (.delete id) (.store (.deleteFirst f c.name))
  | deletesAll (ids : List Uuid) (f : Filter) :
      Makes c caller (.deleteListed ids) (.store (.deleteAll f c.name))

theorem makes_of_quiet {α : Type} {p : Program α} (h : p.Quiet) :
    p.Always (c.Makes caller op) :=
  h.mono fun _ => .reads

theorem makes_write {call : StoreCall} (place : String) (h : c.Makes caller op (.store call)) :
    (OperationM.inPlace place
      (StoreM.check >>= fun _ => StoreM.call call)).run.Always (c.Makes caller op) :=
  always_inPlace (always_bindE (makes_of_quiet quiet_check) fun _ => always_call h)

theorem makes_writeUpdate {id : Uuid} {version : Option Int64} {u : Update} (place : String)
    (h : ∀ f, c.Makes caller op (.store (.updateFirst f (c.withVersion u) c.name))) :
    (c.writeUpdate id version u place).run.Always (c.Makes caller op) := by
  rw [writeUpdate_steps]
  refine always_bindE (makes_write place (h _)) fun n => makes_of_quiet ?_
  split
  · split
    · exact always_throwE _
    · exact always_throwE _
  · exact always_pureE _

theorem makes_stamped {α : Type} {k : Update → OperationM α} {changes : Changes}
    (h : ∀ now, (k { sets := changes ++ c.stampsAt caller now }).run.Always (c.Makes caller op)) :
    (c.stampedUpdate caller changes >>= k).run.Always (c.Makes caller op) := by
  have hy : (c.stampedUpdate caller changes).run.Yields fun u =>
      ∃ now, u = { sets := changes ++ c.stampsAt caller now } := by
    refine yields_bindE (c.yields_stamps caller) fun stamps hstamps => yields_pureE ?_
    obtain ⟨now, rfl⟩ := hstamps
    exact ⟨now, rfl⟩
  refine always_bindE_of_yields hy (makes_of_quiet (c.quiet_stampedUpdate caller changes))
    fun u hu => ?_
  obtain ⟨now, rfl⟩ := hu
  exact h now

theorem makes_writeStamped (hop : op.signs = true) {changes : Changes}
    (h : c.schema.PermitsAll changes) (id : Uuid) (version : Option Int64) (place : String) :
    (c.writeStamped caller id version changes place).run.Always (c.Makes caller op) :=
  makes_stamped fun now => makes_writeUpdate place fun f => .signs hop f h now

theorem makes_commit (hop : op.signs = true) {changes : Changes}
    (h : c.schema.PermitsAll changes) (id : Uuid) (d : Document) (place : String) :
    (c.commit caller id d changes place).run.Always (c.Makes caller op) := by
  rw [commit_eq]
  split
  · exact always_pureE _
  · refine always_bindE (makes_of_quiet ?_) fun _ =>
      always_bindE (makes_writeStamped hop h id _ place) fun _ => always_pureE _
    split
    · exact c.quiet_refuseTakenRename changes id place
    · exact always_pureE _

theorem makes_writeReferences (hs : c.schema.Lawful) (hop : op.signs = true) {r : Relation}
    (hr : r ∈ c.schema.relations) (id : Uuid) (d : Document) (v : Value) (place : String) :
    (c.writeReferences caller id d r v place).run.Always (c.Makes caller op) := by
  refine always_bindE (makes_writeStamped hop ?_ id _ place) fun _ => always_pureE _
  intro p hp
  rw [List.mem_singleton.mp hp]
  exact hs.permits_reference hr

theorem makes_add (e : E) : (c.add caller e).run.Always (c.Makes caller (.add e)) := by
  rw [add_eq]
  refine always_bindE (makes_of_quiet (c.quiet_prepared e)) fun e' => ?_
  refine always_bindE (makes_of_quiet (always_inPlace (quiet_entityExists _ _))) fun taken => ?_
  refine always_bindE (makes_of_quiet ?_) fun _ => always_bindE (makes_of_quiet ?_) fun _ => ?_
  · split
    · exact always_throwE _
    · exact always_pureE _
  · split
    · exact c.quiet_refuseTakenName _ _ _
    · exact always_pureE _
  refine always_bindE (makes_of_quiet (always_inPlace (c.schema.quiet_resolve _ _ _ _)))
    fun out => ?_
  refine always_bindE_of_yields (c.yields_stampedNew caller out.1)
    (makes_of_quiet (c.quiet_stampedNew caller _)) fun d hd => ?_
  obtain ⟨now, rfl⟩ := hd
  exact always_bindE (makes_write _ (.inserts _ _ now)) fun _ => always_inPlace (always_ofExcept _)

theorem makes_get (id : Uuid) (lookup : Bool) :
    (c.get caller id lookup).run.Always (c.Makes caller (.get id lookup)) := by
  refine always_bindE (makes_of_quiet (c.quiet_load caller id _)) fun d => ?_
  cases lookup with
  | false => exact always_bindE (always_inPlace (always_ofExcept _)) fun _ => always_pureE _
  | true =>
    have hrefers : (c.schema.resolve (c.viewer caller) ⟨true, true⟩ none d).run.Yields
        fun out => c.schema.Refers out.2 :=
      Relation.yields_refers _ _ (fun _ hr => Schema.mem_chosenRelations hr) d nofun
    refine always_bindE_of_yields (yields_inPlace hrefers)
      (makes_of_quiet (always_inPlace (c.schema.quiet_resolve _ _ _ _))) fun out hout => ?_
    refine always_bindE ?_ fun _ => always_bindE (always_inPlace (always_ofExcept _)) fun _ =>
      always_pureE _
    rw [persistPruned]
    split
    · exact always_bind (makes_writeUpdate _ fun f => .prunes id f hout) fun _ => trivial
    · exact always_pureE _

theorem makes_update (hs : c.schema.Lawful) (e : E) (asked : Option Bool) :
    (c.update caller e asked).run.Always (c.Makes caller (.update e asked)) := by
  refine always_bindE (makes_of_quiet (c.quiet_load caller _ _)) fun d => ?_
  refine always_bindE (makes_of_quiet (always_ofProgram (quiet_ofDraws _))) fun e' => ?_
  refine always_bindE (makes_of_quiet (c.quiet_prunedIf _ _ _ _)) fun proposed => ?_
  exact makes_commit rfl (Schema.permits_diff hs _ _ _) _ _ _

theorem makes_applyDelta (hs : c.schema.Lawful) (delta : Delta E) :
    (c.applyDelta caller delta).run.Always (c.Makes caller (.applyDelta delta)) := by
  refine always_bindE (makes_of_quiet (c.quiet_load caller _ _)) fun d => ?_
  split
  · exact always_pureE _
  · refine always_bindE (makes_of_quiet (always_ofProgram (quiet_ofDraws _))) fun e => ?_
    refine always_bindE (makes_of_quiet (c.quiet_prunedIf _ _ _ _)) fun patch => ?_
    exact makes_commit rfl (Schema.permits_plan hs _ _ _ _) _ _ _

theorem makes_assign (hs : c.schema.Lawful) (bulk : Assignment E) :
    (c.assign caller bulk).run.Always (c.Makes caller (.assign bulk)) := by
  refine always_bindE (makes_of_quiet (always_inPlace (always_ofExcept _))) fun ids => ?_
  split
  · exact always_pureE _
  refine always_bindE (makes_of_quiet (always_ofProgram (quiet_ofDraws _))) fun e => ?_
  refine always_bindE (makes_of_quiet (c.quiet_prunedIf _ _ _ _)) fun patch => ?_
  dsimp only
  split
  · exact always_pureE _
  refine always_bindE (makes_of_quiet (c.quiet_refuseShared _ _)) fun _ => ?_
  refine makes_stamped fun now => makes_write _ ?_
  exact .signsAll rfl _ (Schema.permits_plan hs _ _ _ _) now

theorem makes_deleteListed (ids : List Uuid) :
    (c.deleteListed caller ids).run.Always (c.Makes caller (.deleteListed ids)) := by
  refine always_bindE (makes_of_quiet (always_inPlace (always_ofExcept _))) fun granted => ?_
  split
  · exact always_pureE _
  · exact makes_write _ (.deletesAll ids _)

theorem makes_delete (id : Uuid) :
    (c.delete caller id).run.Always (c.Makes caller (.delete id)) := by
  refine always_bindE (makes_of_quiet (c.quiet_load caller _ _)) fun d => ?_
  refine always_bindE (makes_write _ (.deletes id _)) fun n => ?_
  split
  · exact always_throwE _
  · exact always_pureE _

theorem makes_link (hs : c.schema.Lawful) (id : Uuid) (relation : String) (target : Uuid) :
    (c.link caller id relation target).run.Always (c.Makes caller (.link id relation target)) := by
  refine always_bindE_of_yields (c.yields_relation _ _) (makes_of_quiet (c.quiet_relation _ _))
    fun r hr => ?_
  refine always_bindE (makes_of_quiet (c.quiet_load caller _ _)) fun d => ?_
  dsimp only
  split
  · exact always_pureE _
  · refine always_bindE (makes_of_quiet (quiet_requireTarget _ _ _)) fun _ => ?_
    exact makes_writeReferences hs rfl hr.1 _ _ _ _

theorem makes_unlink (hs : c.schema.Lawful) (id : Uuid) (relation : String) (target : Uuid) :
    (c.unlink caller id relation target).run.Always
      (c.Makes caller (.unlink id relation target)) := by
  refine always_bindE_of_yields (c.yields_relation _ _) (makes_of_quiet (c.quiet_relation _ _))
    fun r hr => ?_
  refine always_bindE (makes_of_quiet (c.quiet_load caller _ _)) fun d => ?_
  dsimp only
  split
  · exact makes_writeReferences hs rfl hr.1 _ _ _ _
  · exact always_pureE _

theorem makes_refer (hs : c.schema.Lawful) (id : Uuid) (relation : String)
    (target : Option Uuid) :
    (c.refer caller id relation target).run.Always
      (c.Makes caller (.refer id relation target)) := by
  refine always_bindE_of_yields (c.yields_relation _ _) (makes_of_quiet (c.quiet_relation _ _))
    fun r hr => ?_
  refine always_bindE (makes_of_quiet (c.quiet_load caller _ _)) fun d => ?_
  split
  · exact always_pureE _
  · cases target with
    | some t =>
      refine always_bindE (makes_of_quiet (quiet_requireTarget _ _ _)) fun _ => ?_
      exact makes_writeReferences hs rfl hr.1 _ _ _ _
    | none => exact makes_writeReferences hs rfl hr.1 _ _ _ _

/-- **An operation requests no other writes.** -/
theorem makes_program (hs : c.schema.Lawful) (op : Operation E) :
    (op.program c caller).run.Always (c.Makes caller op) := by
  cases op with
  | add e => exact always_bindE (makes_add e) fun _ => always_pureE _
  | get id lookup => exact always_bindE (makes_get id lookup) fun _ => always_pureE _
  | search p =>
    exact always_bindE (makes_of_quiet (c.quiet_search caller p)) fun _ => always_pureE _
  | update e asked => exact always_bindE (makes_update hs e asked) fun _ => always_pureE _
  | applyDelta delta => exact always_bindE (makes_applyDelta hs delta) fun _ => always_pureE _
  | assign bulk => exact always_bindE (makes_assign hs bulk) fun _ => always_pureE _
  | deleteListed ids => exact always_bindE (makes_deleteListed ids) fun _ => always_pureE _
  | delete id => exact always_bindE (makes_delete id) fun _ => always_pureE _
  | link id relation target =>
    exact always_bindE (makes_link hs id relation target) fun _ => always_pureE _
  | unlink id relation target =>
    exact always_bindE (makes_unlink hs id relation target) fun _ => always_pureE _
  | refer id relation target =>
    exact always_bindE (makes_refer hs id relation target) fun _ => always_pureE _

/-! ### What is written -/

variable {w : Surroundings} {s t : Store} {g : Field} {id : Uuid}

/-- Among the stamps there is the signature, and nothing after it stands in its field. -/
theorem exists_signature (caller : Caller) (hs : c.schema.Lawful) (hg : g ∈ c.schema.fields)
    (hrole : g.role = .updatedBy) (now : Int64) :
    ∃ before after, c.stampsAt caller now = before ++ (g.name, .string caller.stamp) :: after ∧
      ∀ p ∈ after, g.name ≠ p.1 ∧ g.name ≠ Text.headSegment p.1 := by
  obtain ⟨before, after, hfields⟩ := List.append_of_mem hg
  have hnodup := hs.nodup
  rw [hfields, List.map_append, List.map_cons, List.nodup_append, List.nodup_cons] at hnodup
  rw [stampsAt, hfields, List.filterMap_append, List.filterMap_cons, hrole]
  refine ⟨_, _, rfl, fun p hp => ?_⟩
  obtain ⟨f, hf, hp⟩ := List.mem_filterMap.mp hp
  have hname : p.1 = f.name := by
    split at hp
    · cases hp
      rfl
    · cases hp
      rfl
    · cases hp
  have hne : g.name ≠ f.name := fun heq => hnodup.2.1.1 (heq ▸ List.mem_map_of_mem hf)
  have hmem : f ∈ c.schema.fields := by
    rw [hfields]
    exact List.mem_append_right _ (List.mem_cons_of_mem g hf)
  rw [hname, Schema.headSegment_name hs hmem]
  exact ⟨hne, hne⟩

/-- **An update with stamps signs.** -/
theorem value?_signed (hs : c.schema.Lawful) (hg : g ∈ c.schema.fields)
    (hrole : g.role = .updatedBy) (changes : Changes) (now : Int64) (d : Document) :
    ((c.withVersion { sets := changes ++ c.stampsAt caller now }).apply d).value? g.name =
      some (.string caller.stamp) := by
  obtain ⟨before, after, hstamps, hafter⟩ := exists_signature caller hs hg hrole now
  rw [value?_versioned hs hg (by rw [hrole]; exact FieldRole.noConfusion), hstamps,
    ← List.append_assoc]
  exact Document.value?_sets_of_last (hs.dotless g hg) _ (fun p hp => (hafter p hp).2) d

/-- **A new document is signed.** -/
theorem value?_signedNew (hs : c.schema.Lawful) (hg : g ∈ c.schema.fields)
    (hrole : g.role = .updatedBy) (now : Int64) (d : Document) :
    (c.stampedNewAt caller now d).value? g.name = some (.string caller.stamp) := by
  obtain ⟨before, after, hstamps, hafter⟩ := exists_signature caller hs hg hrole now
  have hsigned : ((c.stampsAt caller now).foldl (fun d p => Document.put d p.1 p.2) d).value?
      g.name = some (.string caller.stamp) := by
    rw [hstamps, List.foldl_append, List.foldl_cons]
    refine List.foldlRecOn (motive := fun d' => Document.value? d' g.name = _) _ _
      (Document.value?_put_self _ _ _) fun d' hd' p hp => ?_
    rw [Document.value?_put_of_ne d' _ (hafter p hp).1, hd']
  rw [stampedNewAt]
  split
  · rename_i field hfield
    obtain ⟨f, hf, hversion, rfl⟩ := Schema.versionName?_eq_some hfield
    have hne : g.name ≠ f.name :=
      hs.name_ne hg hf (by rw [hrole, hversion]; exact FieldRole.noConfusion)
    rw [Document.value?_put_of_ne _ _ hne, hsigned]
  · exact hsigned

/-- **What a look-up writes back leaves the signature alone.** -/
theorem value?_unsigned (hs : c.schema.Lawful) (hg : g ∈ c.schema.fields)
    (hrole : g.role = .updatedBy) {changes : Changes} (h : c.schema.Refers changes)
    (d : Document) :
    ((c.withVersion { sets := changes }).apply d).value? g.name = d.value? g.name := by
  rw [value?_versioned hs hg (by rw [hrole]; exact FieldRole.noConfusion)]
  refine Document.value?_setAll_of_ne (fun p hp => ?_) d
  obtain ⟨r, hr, hname⟩ := h p hp
  obtain ⟨f, hf, hdependency, hfield⟩ := hs.references r hr
  rw [hname, ← hfield, Schema.headSegment_name hs hf]
  exact hs.name_ne hg hf (by rw [hrole, hdependency]; exact nofun)

theorem mem_of_concerned_update {f : Filter} {u : Update} {answer : Except StoreError Nat}
    (hk : (s.entries c.name).Keyed)
    (h : w.Reply s (.store (.updateFirst f u c.name)) answer t)
    (hc : Request.Concerns s c.name id (.store (.updateFirst f u c.name))) {d : Document}
    (hd : (id, d) ∈ t.entries c.name) : ∃ d', (id, d') ∈ s.entries c.name ∧ d = u.apply d' := by
  obtain ⟨-, x, hx⟩ := hc
  have ht : t = (s.updateFirst f u c.name).1 := congrArg Prod.snd (h.replies rfl)
  rw [ht, Store.updateFirst, Store.entries_modify _ _ _ rfl, if_pos rfl] at hd
  rcases (Entries.mem_updateFirst hk.nodup).mp hd with ⟨-, hn⟩ | ⟨d', hd', he⟩
  · exact absurd hx (hn x)
  · exact ⟨d', List.mem_of_find?_eq_some hd', he⟩

theorem mem_of_concerned_updateAll {f : Filter} {u : Update} {answer : Except StoreError Nat}
    (hk : (s.entries c.name).Keyed)
    (h : w.Reply s (.store (.updateAll f u c.name)) answer t)
    (hc : Request.Concerns s c.name id (.store (.updateAll f u c.name))) {d : Document}
    (hd : (id, d) ∈ t.entries c.name) : ∃ d', (id, d') ∈ s.entries c.name ∧ d = u.apply d' := by
  obtain ⟨-, x, hx, hxf⟩ := hc
  have ht : t = (s.updateAll f u c.name).1 := congrArg Prod.snd (h.replies rfl)
  rw [ht, Store.updateAll, Store.entries_modify _ _ _ rfl, if_pos rfl] at hd
  rcases Entries.mem_updateAll.mp hd with ⟨hm, hn⟩ | ⟨d', hd', -, he⟩
  · rw [Entries.eq_of_mem hk.nodup hm hx, hxf] at hn
    cases hn
  · exact ⟨d', hd', he⟩

/-- **What an operation writes, it signs**, unless it is a look-up, which leaves the signature as
it was. -/
theorem Makes.signed {r : Request} {a : r.Answer} (hm : c.Makes caller op r)
    (hs : c.schema.Lawful) (hg : g ∈ c.schema.fields) (hrole : g.role = .updatedBy)
    (hk : (s.entries c.name).Keyed) (h : w.Reply s r a t) (hc : r.Concerns s c.name id)
    {d : Document} (hd : (id, d) ∈ t.entries c.name) :
    (op.isAdd = true ∧ id ∉ (s.entries c.name).map Prod.fst ∧
        d.value? g.name = some (.string caller.stamp)) ∨
      ∃ d', (id, d') ∈ s.entries c.name ∧
        (op.signs = true ∧ d.value? g.name = some (.string caller.stamp) ∨
          op.isGet = true ∧ d.value? g.name = d'.value? g.name) := by
  cases hm with
  | reads quiet => exact absurd hc (Request.not_concerns_of_isQuiet quiet)
  | inserts k x now =>
    obtain ⟨-, rfl, hfree⟩ := hc
    have hnew := Entries.hasKey_eq_false_iff.mp hfree
    have hserve : (a, t) = s.serve (.insert k (c.stampedNewAt caller now x) c.name) := h.replies rfl
    rw [Store.serve] at hserve
    cases hins : s.insert k (c.stampedNewAt caller now x) c.name with
    | error e =>
      rw [hins] at hserve
      cases hserve
      exact absurd (List.mem_map.mpr ⟨_, hd, rfl⟩) hnew
    | ok s' =>
      rw [hins] at hserve
      cases hserve
      rw [Store.entries_insert hins, if_pos rfl, Entries.mem_insert] at hd
      rcases hd with heq | hold
      · rw [(Prod.mk.inj heq).2]
        exact .inl ⟨rfl, hnew, value?_signedNew hs hg hrole now x⟩
      · exact absurd (List.mem_map.mpr ⟨_, hold, rfl⟩) hnew
  | signs hop f _ now =>
    obtain ⟨d', hd', rfl⟩ := mem_of_concerned_update hk h hc hd
    exact .inr ⟨d', hd', .inl ⟨hop, value?_signed hs hg hrole _ now d'⟩⟩
  | signsAll hop f _ now =>
    obtain ⟨d', hd', rfl⟩ := mem_of_concerned_updateAll hk h hc hd
    exact .inr ⟨d', hd', .inl ⟨hop, value?_signed hs hg hrole _ now d'⟩⟩
  | prunes k f refers =>
    obtain ⟨d', hd', rfl⟩ := mem_of_concerned_update hk h hc hd
    exact .inr ⟨d', hd', .inr ⟨rfl, value?_unsigned hs hg hrole refers d'⟩⟩
  | deletes k f =>
    obtain ⟨-, x, hx⟩ := hc
    have ht : t = (s.deleteFirst f c.name).1 := congrArg Prod.snd (h.replies rfl)
    rw [ht, Store.deleteFirst, Store.entries_modify _ _ _ rfl, if_pos rfl] at hd
    exact absurd hx (((Entries.mem_deleteFirst hk.nodup).mp hd).2 x)
  | deletesAll ids f =>
    obtain ⟨-, x, hx, hxf⟩ := hc
    have ht : t = (s.deleteAll f c.name).1 := congrArg Prod.snd (h.replies rfl)
    rw [ht, Store.deleteAll, Store.entries_modify _ _ _ rfl, if_pos rfl] at hd
    obtain ⟨hstays, hn⟩ := Entries.mem_deleteAll.mp hd
    rw [Entries.eq_of_mem hk.nodup hstays hx, hxf] at hn
    cases hn

end Collection

end Registrar
