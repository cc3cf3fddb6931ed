import Registrar.Proofs.Engine.Pruning

/-!
# The effect of an operation

An operation that has the store for itself reads first and writes at last. So what it writes can be
told from the store that it found: nothing, or one insertion, update or deletion. This is said once
for all operations, with everything that was checked before the write. What holds of every effect
holds of every run.

* `Collection.NameFree`: no other document has the name.
* `Collection.Proposes`: the changes that an operation proposes for a document that it loaded.
* `Collection.Effect`: the stores that an operation may leave.
* `effect_program`: every run has one of these effects.
-/

namespace Registrar

/-- **The results of drawing ids.** -/
inductive Draws.Gives {α : Type} : Draws α → α → Prop where
  | done (a : α) : Gives (.done a) a
  | draw {next : Uuid → Draws α} {a : α} (u : Uuid) (h : Gives (next u) a) : Gives (.draw next) a

namespace Collection

variable {E : Type} (c : Collection E) (caller : Caller) (s : Store)

/-! ### What is checked -/

/-- **No other document has the name** that has to be kept in this one. -/
def NameFree (d : Document) (id : Uuid) : Prop :=
  ∀ field name, c.nameToKeep? d = some (field, name) →
    s.count (some (.and [.eqIgnoreCase field (.string name), .ne "id" (Value.ofUuid id)])) c.name
      = 0

/-- A name among the changes is free. -/
def RenameFree (changes : Changes) (id : Uuid) : Prop :=
  ∀ field v, c.schema.uniqueName = some field → changes.value? field = some v →
    c.NameFree s [(field, v)] id

/-! ### What is written -/

/-- A new entity is brought into its canonical form, and given an id if it has none. -/
def Prepares (e e' : E) : Prop :=
  ∃ e₁, (c.kind.normalize e).Gives e₁ ∧
    if c.kind.isUnassigned e₁ then ∃ id, e' = c.kind.withId id e₁ else e' = e₁

/-- **The document of a new entity**, before it is stamped. -/
def newDocument (e : E) : Document :=
  c.schema.prunedIn s none (c.withLists (c.withoutNavigation (c.kind.toDocument e)))

/-- A document that is submitted, pruned if this is asked for. -/
def submitted (prune : Bool) (only : Option (List String)) (d : Document) : Document :=
  if prune then c.schema.prunedIn s only d else d

/-- The patch of a delta or an assignment, which names these properties. -/
def patchOf (names : List String) (e : E) : Document :=
  c.submitted s (c.touchesRelation names && c.settings.lookupOnUpdate) (some names)
    (c.kind.toDocument e)

/-- **The changes that an operation proposes** for a document that it loaded. -/
inductive Proposes : Operation E → Uuid → Document → Changes → Prop where
  | update {e e' : E} {asked : Option Bool} {dependencies : Bool} {d : Document} {changes : Changes}
      (normal : (c.kind.normalize e).Gives e')
      (hdependencies : dependencies = asked.getD c.settings.includeDependencyFields)
      (hchanges : changes = c.schema.diff dependencies d (c.submitted s
        (dependencies && c.settings.lookupOnUpdate) none (c.kind.toDocument e')))
      (free : c.settings.validateUniqueNames = true → c.RenameFree s changes (c.kind.id e)) :
      Proposes (.update e asked) (c.kind.id e) d changes
  | applyDelta {delta : Delta E} {e' : E} {d : Document} {changes : Changes}
      (normal : (c.kind.normalize (c.kind.withId delta.id delta.data)).Gives e')
      (hchanges : changes = c.schema.plan delta.properties delta.paths
        (c.patchOf s delta.roots e') (some d))
      (free : c.settings.validateUniqueNames = true → c.RenameFree s changes delta.id) :
      Proposes (.applyDelta delta) delta.id d changes
  | link {id target : Uuid} {name : String} {d : Document} {r : Relation}
      (hr : c.schema.relation? name = some r) (many : r.cardinality = .many)
      (exist : s.Has r.target target) :
      Proposes (.link id name target) id d
        [(r.idField, Value.ofUuids ((d.valueOrNull r.idField).uuids ++ [target]))]
  | unlink {id target : Uuid} {name : String} {d : Document} {r : Relation}
      (hr : c.schema.relation? name = some r) (many : r.cardinality = .many) :
      Proposes (.unlink id name target) id d
        [(r.idField, Value.ofUuids ((d.valueOrNull r.idField).uuids.filter (· ≠ target)))]
  | refer {id target : Uuid} {name : String} {d : Document} {r : Relation}
      (hr : c.schema.relation? name = some r) (one : r.cardinality = .one)
      (exist : s.Has r.target target) :
      Proposes (.refer id name (some target)) id d [(r.idField, Value.ofUuid target)]
  | clear {id : Uuid} {name : String} {d : Document} {r : Relation}
      (hr : c.schema.relation? name = some r) (one : r.cardinality = .one) :
      Proposes (.refer id name none) id d [(r.idField, .null)]

/-- The store after a document that was loaded has been updated, if it still has its version. -/
def writtenTo (id : Uuid) (d : Document) (sets : List (String × Value)) : Store :=
  (s.updateFirst (c.unchangedSince id (c.knownVersion d)).1 (c.withVersion { sets }) c.name).1

/-- The store after an assignment to several documents. -/
def assignedTo (ids : List Uuid) (sets : List (String × Value)) : Store :=
  (s.updateAll (c.visibleAmong caller ids) (c.withVersion { sets }) c.name).1

/-- **The stores that an operation may leave.** -/
inductive Effect : Operation E → Store → Prop where
  /-- Nothing was written. -/
  | idle (op : Operation E) : Effect op s
  /-- An entity was added. -/
  | added {e e' : E} {now : Int64} {t : Store} (prepares : c.Prepares e e')
      (free : c.settings.validateUniqueNames = true →
        c.NameFree s (c.withoutNavigation (c.kind.toDocument e')) (c.kind.id e'))
      (inserts : s.insert (c.kind.id e') (c.stampedNewAt caller now (c.newDocument s e')) c.name =
        .ok t) : Effect (.add e) t
  /-- A document that was loaded was updated. -/
  | updated {op : Operation E} {id : Uuid} {d : Document} {changes : Changes} {now : Int64}
      (stored : (id, d) ∈ s.entries c.name) (proposes : c.Proposes s op id d changes) :
      Effect op (c.writtenTo s id d (changes ++ c.stampsAt caller now))
  /-- What a look-up pruned was written back. -/
  | pruned {id : Uuid} {lookup : Bool} {d : Document} {changes : Changes}
      (stored : (id, d) ∈ s.entries c.name)
      (short : ∀ p ∈ changes, ∃ r ∈ c.schema.relations, r.Shortened d p) :
      Effect (.get id lookup) (c.writtenTo s id d changes)
  /-- Properties of a template were assigned. -/
  | assigned {bulk : Assignment E} {ids : List Uuid} {e' : E} {now : Int64} {changes : Changes}
      (granted : c.policy.grantedAmong c.name caller bulk.ids = .ok ids)
      (normal : (c.kind.normalize bulk.template).Gives e')
      (hchanges : changes = c.schema.plan bulk.properties [] (c.patchOf s bulk.properties e') none)
      (unshared : ∀ field, c.schema.uniqueName = some field →
        (changes.value? field).isSome = true → ids.length ≤ 1) :
      Effect (.assign bulk) (c.assignedTo caller s ids (changes ++ c.stampsAt caller now))
  /-- An entity was deleted. -/
  | deleted (id : Uuid) : Effect (.delete id) (s.deleteFirst (.hasId id) c.name).1
  /-- Several entities were deleted. -/
  | deletedListed {listed ids : List Uuid}
      (granted : c.policy.grantedAmong c.name caller listed = .ok ids) :
      Effect (.deleteListed listed) (s.deleteAll (c.visibleAmong caller ids) c.name).1

/-! ### The parts of operations -/

variable {c caller s} {w : Surroundings}

theorem results_ofDraws {α : Type} (x : Draws α) : (Program.ofDraws x).Results x.Gives := by
  induction x with
  | done a => exact .done a
  | draw next ih => exact fun u => (ih u).mono fun a ha => .draw u ha

theorem tells_ofDraws {α : Type} (x : Draws α) :
    Tells w s True x.Gives (OperationM.ofProgram (Program.ofDraws x)) :=
  tells_of_yields (always_ofProgram (quiet_ofDraws x)) (yields_ofProgram (results_ofDraws x))

theorem tells_load (hk : s.Keyed) (id : Uuid) (place : String) :
    Tells w s True (fun d => (id, d) ∈ s.entries c.name) (c.load caller id place) := by
  refine (((tells_find (fun _ => trivial) _ _).guarded fun _ => trivial).inPlace _).bind
    fun ds hds => ?_
  obtain ⟨ds', hperm, rfl⟩ := hds
  split
  · exact tells_throw trivial _ _
  · rename_i d hd
    obtain ⟨hmem, hvisible⟩ := Query.mem_of_mem_answer (List.mem_of_mem_head? hd)
    obtain ⟨k, hkd⟩ := Entries.mem_documents.mp (hperm.mem_iff.mp hmem)
    have hstored := stored_of_visible (hk c.name) hkd hvisible
    refine (tells_of_yields (always_inPlace (always_ofExcept _)) (yields_trivial _)).bind
      fun accessible _ => ?_
    cases accessible with
    | true => exact tells_pure hstored
    | false => exact tells_throw trivial _ _

theorem tells_ofDocument (x : Document) :
    Tells w s True (fun e => c.kind.ofDocument? x = some e) (c.ofDocument x) := by
  refine (tells_decided trivial _).mono fun e he => ?_
  cases hread : c.kind.ofDocument? x with
  | none =>
    rw [hread] at he
    cases he
  | some e' =>
    rw [hread] at he
    exact congrArg some (Except.ok.inj he)

theorem tells_refuseTakenName (d : Document) (id : Uuid) (place : String) :
    Tells w s True (fun _ => c.NameFree s d id) (c.refuseTakenName d id place) := by
  rw [refuseTakenName]
  split
  · rename_i hnone
    refine tells_pure fun field name hname => ?_
    rw [hnone] at hname
    cases hname
  · rename_i field name hname
    refine (((tells_count (fun _ => trivial) _ _).guarded fun _ => trivial).inPlace _).bind
      fun n hn => ?_
    split
    · exact tells_throw trivial _ _
    · rename_i hzero
      refine tells_pure fun field' name' hname' => ?_
      rw [hname] at hname'
      cases hname'
      omega

theorem tells_refuseTakenRename (changes : Changes) (id : Uuid) (place : String) :
    Tells w s True (fun _ => c.RenameFree s changes id)
      (c.refuseTakenRename changes id place) := by
  rw [refuseTakenRename]
  split
  · rename_i field hfield
    split
    · rename_i v hv
      refine (tells_refuseTakenName _ id place).mono fun _ hfree field' v' hfield' hv' => ?_
      rw [hfield] at hfield'
      cases hfield'
      rw [hv] at hv'
      cases hv'
      exact hfree
    · rename_i hnone
      refine tells_pure fun field' v' hfield' hv' => ?_
      rw [hfield] at hfield'
      cases hfield'
      rw [hnone] at hv'
      cases hv'
  · rename_i hnone
    refine tells_pure fun field' v' hfield' _ => ?_
    rw [hnone] at hfield'
    cases hfield'

theorem tells_prunedIf (hk : s.Keyed) (prune : Bool) (only : Option (List String)) (d : Document)
    (place : String) :
    Tells w s True (· = c.submitted s prune only d) (c.prunedIf prune only d place) := by
  rw [prunedIf, submitted]
  cases prune with
  | true =>
    refine ((Schema.tells_resolve (fun _ => trivial) (fun _ => trivial) hk only d).inPlace _).bind
      fun out hout => ?_
    exact tells_pure hout
  | false => exact tells_pure rfl

theorem tells_stamps :
    Tells w s True (fun stamps => ∃ now, stamps = c.stampsAt caller now) (c.stamps caller) :=
  tells_of_yields (c.quiet_stamps caller) (c.yields_stamps caller)

theorem tells_entityExists (hk : s.Keyed) (name : String) (id : Uuid) :
    Tells w s True (fun b => b = true → s.Has name id) (entityExists name id) := by
  refine ((tells_count (fun _ => trivial) _ _).guarded fun _ => trivial).bind fun n hn => ?_
  refine tells_pure fun hpos => ?_
  rw [hn, Store.count, decide_eq_true_iff] at hpos
  obtain ⟨e, he⟩ := List.exists_mem_of_length_pos hpos
  obtain ⟨hm, hf⟩ := List.mem_filter.mp he
  exact Store.has_iff.mpr ⟨e.2, (Filter.hasId_holds ((hk name).id e hm) id).mp hf ▸ hm⟩

theorem tells_requireTarget (hk : s.Keyed) (r : Relation) (target : Uuid) (place : String) :
    Tells w s True (fun _ => s.Has r.target target) (requireTarget r target place) := by
  refine ((tells_entityExists hk _ _).inPlace _).bind fun b hb => ?_
  cases b with
  | true => exact tells_pure (hb rfl)
  | false => exact tells_throw trivial _ _

theorem tells_relation (name : String) (cardinality : Cardinality) :
    Tells w s True (fun r => c.schema.relation? name = some r ∧ r.cardinality = cardinality)
      (c.relation name cardinality) := by
  rw [relation]
  split
  · rename_i r hr
    obtain ⟨hr, hcard⟩ := Option.filter_eq_some_iff.mp hr
    exact tells_pure ⟨hr, of_decide_eq_true hcard⟩
  · exact tells_throw trivial _ _

theorem tells_prepared (e : E) : Tells w s True (c.Prepares e) (c.prepared e) := by
  refine (tells_ofDraws _).bind fun e₁ he₁ => ?_
  split
  · rename_i hun
    have hquiet : (OperationM.ofProgram (Program.request .newId)).run.Quiet :=
      always_ofProgram ⟨rfl, fun _ => trivial⟩
    refine (tells_of_yields hquiet (yields_trivial _)).bind fun id _ => tells_pure ⟨e₁, he₁, ?_⟩
    rw [if_pos hun]
    exact ⟨id, rfl⟩
  · rename_i hun
    refine tells_pure ⟨e₁, he₁, ?_⟩
    rw [if_neg hun]

theorem tells_stampedNew (d : Document) :
    Tells w s True (fun d' => ∃ now, d' = c.stampedNewAt caller now d) (c.stampedNew caller d) :=
  tells_of_yields (c.quiet_stampedNew caller d) (c.yields_stampedNew caller d)

theorem tells_stampedUpdate (changes : Changes) :
    Tells w s True (fun u => ∃ now, u = { sets := changes ++ c.stampsAt caller now })
      (c.stampedUpdate caller changes) := by
  refine tells_stamps.bind fun stamps hstamps => ?_
  obtain ⟨now, rfl⟩ := hstamps
  exact tells_pure ⟨now, rfl⟩

theorem tells_refuseShared (changes : Changes) (n : Nat) :
    Tells w s True (fun _ => ∀ field, c.schema.uniqueName = some field →
      (changes.value? field).isSome = true → n ≤ 1) (c.refuseShared changes n) := by
  rw [refuseShared]
  split
  · rename_i field hfield
    split
    · exact tells_throw trivial _ _
    · rename_i hshared
      refine tells_pure fun field' hfield' hsome => ?_
      rw [hfield] at hfield'
      cases hfield'
      rw [hsome, Bool.true_and, decide_eq_true_iff] at hshared
      omega
  · rename_i hnone
    refine tells_pure fun field' hfield' _ => ?_
    rw [hnone] at hfield'
    cases hfield'

theorem tells_granted (ids : List Uuid) (place : String) :
    Tells w s True (fun granted => c.policy.grantedAmong c.name caller ids = .ok granted)
      (OperationM.inPlace place (StoreM.ofExcept (c.policy.grantedAmong c.name caller ids))) :=
  (tells_decided trivial _).inPlace place

/-! ### Operations -/

variable {P : Store → Prop}

theorem ends_writeUpdate {id : Uuid} {version : Option Int64} {u : Update} (hs : P s)
    (h : P (s.updateFirst (c.unchangedSince id version).1 (c.withVersion u) c.name).1)
    (place : String) : Ends w s P (c.writeUpdate id version u place) := by
  refine Ends.bind_quiet (Ends.inPlace (ends_write rfl hs ?_) _) fun n => ?_
  · intro answer t hreply
    obtain rfl : t = _ := congrArg Prod.snd hreply
    exact h
  · split
    · split
      · exact always_throwE _
      · exact always_throwE _
    · exact always_pureE _

theorem ends_writeStamped {id : Uuid} {d : Document} {changes : Changes} (hs : P s)
    (h : ∀ now, P (c.writtenTo s id d (changes ++ c.stampsAt caller now))) (place : String) :
    Ends w s P (c.writeStamped caller id (c.knownVersion d) changes place) := by
  refine (tells_stampedUpdate changes).ends hs fun u hu => ?_
  obtain ⟨now, rfl⟩ := hu
  exact ends_writeUpdate hs (h now) place

theorem ends_commit {id : Uuid} {d : Document} {changes : Changes} (hs : P s)
    (h : (c.settings.validateUniqueNames = true → c.RenameFree s changes id) →
      ∀ now, P (c.writtenTo s id d (changes ++ c.stampsAt caller now))) (place : String) :
    Ends w s P (c.commit caller id d changes place) := by
  rw [commit]
  split
  · exact ends_of_quiet hs (always_pureE _)
  · by_cases hv : c.settings.validateUniqueNames = true
    · rw [if_pos hv]
      refine (tells_refuseTakenRename changes id place).ends hs fun _ hfree => ?_
      refine Ends.bind_quiet (ends_writeStamped hs ?_ place) fun _ => always_pureE _
      exact h fun _ => hfree
    · rw [if_neg hv]
      refine Ends.bind_quiet (ends_writeStamped hs ?_ place) fun _ => always_pureE _
      exact h fun hv' => absurd hv' hv

/-- **A document is updated** as its entity was brought into the canonical form, or nothing is. -/
theorem ends_updated {Q : E → Prop} (hk : s.Keyed) (e : E) (asked : Option Bool)
    (hnormal : Tells w s True Q (OperationM.ofProgram (Program.ofDraws (c.kind.normalize e))))
    (hs : P s)
    (hwritten : ∀ d e' changes now, (c.kind.id e, d) ∈ s.entries c.name → Q e' →
      changes = c.schema.diff (asked.getD c.settings.includeDependencyFields) d (c.submitted s
        (asked.getD c.settings.includeDependencyFields && c.settings.lookupOnUpdate) none
          (c.kind.toDocument e')) →
      (c.settings.validateUniqueNames = true → c.RenameFree s changes (c.kind.id e)) →
        P (c.writtenTo s (c.kind.id e) d (changes ++ c.stampsAt caller now))) :
    Ends w s P (c.update caller e asked) := by
  refine (tells_load hk _ _).ends hs fun d hd => ?_
  refine hnormal.ends hs fun e' he' => ?_
  refine (tells_prunedIf hk _ _ _ _).ends hs fun proposed hproposed => ?_
  subst hproposed
  exact ends_commit hs (fun hfree now => hwritten d e' _ now hd he' rfl hfree) _

theorem ends_update (hk : s.Keyed) (e : E) (asked : Option Bool) :
    Ends w s (c.Effect caller s (.update e asked)) (c.update caller e asked) :=
  ends_updated hk e asked (tells_ofDraws _) (.idle _) fun _ _ _ _ hd he' hchanges hfree =>
    .updated hd (.update he' rfl hchanges hfree)

theorem ends_applyDelta (hk : s.Keyed) (delta : Delta E) :
    Ends w s (c.Effect caller s (.applyDelta delta)) (c.applyDelta caller delta) := by
  refine (tells_load hk _ _).ends (.idle _) fun d hd => ?_
  split
  · exact ends_of_quiet (.idle _) (always_pureE _)
  · refine (tells_ofDraws _).ends (.idle _) fun e' he' => ?_
    refine (tells_prunedIf hk _ _ _ _).ends (.idle _) fun patch hpatch => ?_
    subst hpatch
    exact ends_commit (.idle _) (fun hfree _ => .updated hd (.applyDelta he' rfl hfree)) _

theorem ends_link (hk : s.Keyed) (id : Uuid) (name : String) (target : Uuid) :
    Ends w s (c.Effect caller s (.link id name target)) (c.link caller id name target) := by
  refine (tells_relation _ _).ends (.idle _) fun r hr => ?_
  refine (tells_load hk _ _).ends (.idle _) fun d hd => ?_
  dsimp only
  split
  · exact ends_of_quiet (.idle _) (always_pureE _)
  · refine (tells_requireTarget hk _ _ _).ends (.idle _) fun _ hexist => ?_
    refine Ends.bind_quiet (ends_writeStamped (.idle _) (fun now => ?_) _) fun _ => always_pureE _
    exact .updated hd (.link hr.1 hr.2 hexist)

theorem ends_unlink (hk : s.Keyed) (id : Uuid) (name : String) (target : Uuid) :
    Ends w s (c.Effect caller s (.unlink id name target)) (c.unlink caller id name target) := by
  refine (tells_relation _ _).ends (.idle _) fun r hr => ?_
  refine (tells_load hk _ _).ends (.idle _) fun d hd => ?_
  dsimp only
  split
  · refine Ends.bind_quiet (ends_writeStamped (.idle _) (fun now => ?_) _) fun _ => always_pureE _
    exact .updated hd (.unlink hr.1 hr.2)
  · exact ends_of_quiet (.idle _) (always_pureE _)

theorem ends_refer (hk : s.Keyed) (id : Uuid) (name : String) (target : Option Uuid) :
    Ends w s (c.Effect caller s (.refer id name target)) (c.refer caller id name target) := by
  refine (tells_relation _ _).ends (.idle _) fun r hr => ?_
  refine (tells_load hk _ _).ends (.idle _) fun d hd => ?_
  split
  · exact ends_of_quiet (.idle _) (always_pureE _)
  · cases target with
    | some target =>
      refine (tells_requireTarget hk _ _ _).ends (.idle _) fun _ hexist => ?_
      refine Ends.bind_quiet (ends_writeStamped (.idle _) (fun now => ?_) _) fun _ => always_pureE _
      exact .updated hd (.refer hr.1 hr.2 hexist)
    | none =>
      refine Ends.bind_quiet (ends_writeStamped (.idle _) (fun now => ?_) _) fun _ => always_pureE _
      exact .updated hd (.clear hr.1 hr.2)

/-- **An entity is added** as it was prepared, or nothing is. -/
theorem ends_prepared {Q : E → Prop} (hk : s.Keyed) (e : E)
    (hprepared : Tells w s True Q (c.prepared e)) (hs : P s)
    (hadded : ∀ e' now t, Q e' → (c.settings.validateUniqueNames = true →
        c.NameFree s (c.withoutNavigation (c.kind.toDocument e')) (c.kind.id e')) →
      s.insert (c.kind.id e') (c.stampedNewAt caller now (c.newDocument s e')) c.name = .ok t →
        P t) :
    Ends w s P (c.add caller e) := by
  rw [add_eq]
  refine hprepared.ends hs fun e' he' => ?_
  refine ((tells_entityExists hk _ _).inPlace _).ends hs fun taken _ => ?_
  refine (tells_of_yields ?_ (yields_trivial _)).ends hs fun _ _ => ?_
  · split
    · exact always_throwE _
    · exact always_pureE _
  have hname : Tells w s True (fun _ => c.settings.validateUniqueNames = true →
      c.NameFree s (c.withoutNavigation (c.kind.toDocument e')) (c.kind.id e'))
      (if c.settings.validateUniqueNames = true then
        c.refuseTakenName (c.withoutNavigation (c.kind.toDocument e')) (c.kind.id e')
          (c.place "add") else pure ()) := by
    split
    · exact (tells_refuseTakenName _ _ _).mono fun _ hfree _ => hfree
    · rename_i hv
      exact tells_pure fun hv' => absurd hv' hv
  refine hname.ends hs fun _ hfree => ?_
  refine ((Schema.tells_resolve (fun _ => trivial) (fun _ => trivial) hk none _).inPlace _).ends
    hs fun out hout => ?_
  refine (tells_stampedNew _).ends hs fun d hd => ?_
  obtain ⟨now, rfl⟩ := hd
  refine Ends.bind_quiet (Ends.inPlace (ends_write rfl hs fun answer t hreply => ?_) _)
    fun _ => always_inPlace (always_ofExcept _)
  have hserve : (answer, t) = s.serve (.insert (c.kind.id e') _ c.name) := hreply
  rw [Store.serve] at hserve
  cases hinsert : s.insert (c.kind.id e') (c.stampedNewAt caller now out.1) c.name with
  | ok t' =>
    rw [hinsert] at hserve
    obtain ⟨-, rfl⟩ := Prod.mk.inj hserve
    refine hadded e' now _ he' hfree ?_
    rw [newDocument, ← hout]
    exact hinsert
  | error e =>
    rw [hinsert] at hserve
    obtain ⟨-, rfl⟩ := Prod.mk.inj hserve
    exact hs

theorem ends_add (hk : s.Keyed) (e : E) :
    Ends w s (c.Effect caller s (.add e)) (c.add caller e) :=
  ends_prepared hk e (tells_prepared e) (.idle _) fun _ _ _ prepares free inserts =>
    .added prepares free inserts

theorem ends_get (hs : c.schema.Lawful) (hl : c.schema.Linked) (hk : s.Keyed) (id : Uuid)
    (lookup : Bool) : Ends w s (c.Effect caller s (.get id lookup)) (c.get caller id lookup) := by
  refine (tells_load hk _ _).ends (.idle _) fun d hd => ?_
  split
  · have hresolve : Tells w s True (fun out => ∀ p ∈ out.2, ∃ r ∈ c.schema.relations,
        r.Shortened d p) (OperationM.inPlace (c.place "get")
          (c.schema.resolve (c.viewer caller) ⟨true, true⟩ none d)) :=
      tells_of_yields (always_inPlace (c.schema.quiet_resolve _ _ _ _))
        (yields_inPlace (Schema.yields_lookup hs hl _ _ _ _))
    refine hresolve.ends (.idle _) fun out hshort => ?_
    refine Ends.bind_quiet ?_ fun _ => always_bindE (always_inPlace (always_ofExcept _))
      fun _ => always_pureE _
    rw [persistPruned]
    split
    · intro r t h
      obtain ⟨a, u, ha, -, rfl⟩ := (Program.runs_bind _ _).mp h
      exact ends_writeUpdate (.idle _) (.pruned hd hshort) _ a _ ha
    · exact ends_of_quiet (.idle _) (always_pureE _)
  · exact ends_of_quiet (.idle _) (always_bindE (always_inPlace (always_ofExcept _))
      fun _ => always_pureE _)

theorem ends_assign (hk : s.Keyed) (bulk : Assignment E) :
    Ends w s (c.Effect caller s (.assign bulk)) (c.assign caller bulk) := by
  refine (tells_granted bulk.ids _).ends (.idle _) fun ids hids => ?_
  split
  · exact ends_of_quiet (.idle _) (always_pureE _)
  refine (tells_ofDraws _).ends (.idle _) fun e' he' => ?_
  refine (tells_prunedIf hk _ _ _ _).ends (.idle _) fun patch hpatch => ?_
  subst hpatch
  dsimp only
  split
  · exact ends_of_quiet (.idle _) (always_pureE _)
  refine (tells_refuseShared _ _).ends (.idle _) fun _ hshared => ?_
  refine (tells_stampedUpdate _).ends (.idle _) fun u hu => ?_
  obtain ⟨now, rfl⟩ := hu
  refine Ends.inPlace (ends_write rfl (.idle _) fun answer t hreply => ?_) _
  obtain rfl : t = _ := congrArg Prod.snd hreply
  exact .assigned hids he' rfl hshared

theorem ends_delete (hk : s.Keyed) (id : Uuid) :
    Ends w s (c.Effect caller s (.delete id)) (c.delete caller id) := by
  refine (tells_load hk _ _).ends (.idle _) fun d hd => ?_
  refine Ends.bind_quiet (Ends.inPlace (ends_write rfl (.idle _) fun answer t hreply => ?_) _)
    fun n => ?_
  · obtain rfl : t = _ := congrArg Prod.snd hreply
    exact .deleted id
  · split
    · exact always_throwE _
    · exact always_pureE _

theorem ends_deleteListed (listed : List Uuid) :
    Ends w s (c.Effect caller s (.deleteListed listed)) (c.deleteListed caller listed) := by
  refine (tells_granted listed _).ends (.idle _) fun ids hids => ?_
  split
  · exact ends_of_quiet (.idle _) (always_pureE _)
  refine Ends.inPlace (ends_write rfl (.idle _) fun answer t hreply => ?_) _
  obtain rfl : t = _ := congrArg Prod.snd hreply
  exact .deletedListed hids

end Collection

/-- **Every run has one of these effects.** -/
theorem effect_program {E : Type} {c : Collection E} {caller : Caller} {w : Surroundings}
    {s t : Store} (hs : c.schema.Lawful) (hl : c.schema.Linked) (hk : s.Keyed) (op : Operation E)
    {r : Except Failure (Answer E)} (h : (op.program c caller).run.Runs w s r t) :
    c.Effect caller s op t := by
  have hends : Ends w s (c.Effect caller s op) (op.program c caller) := by
    cases op with
    | add e => exact (Collection.ends_add hk e).bind_quiet fun _ => always_pureE _
    | get id lookup =>
      exact (Collection.ends_get hs hl hk id lookup).bind_quiet fun _ => always_pureE _
    | search p =>
      exact ends_of_quiet (.idle _) (always_bindE (c.quiet_search caller p) fun _ => always_pureE _)
    | update e asked => exact (Collection.ends_update hk e asked).bind_quiet fun _ => always_pureE _
    | applyDelta delta =>
      exact (Collection.ends_applyDelta hk delta).bind_quiet fun _ => always_pureE _
    | assign bulk => exact (Collection.ends_assign hk bulk).bind_quiet fun _ => always_pureE _
    | deleteListed ids =>
      exact (Collection.ends_deleteListed ids).bind_quiet fun _ => always_pureE _
    | delete id => exact (Collection.ends_delete hk id).bind_quiet fun _ => always_pureE _
    | link id name target =>
      exact (Collection.ends_link hk id name target).bind_quiet fun _ => always_pureE _
    | unlink id name target =>
      exact (Collection.ends_unlink hk id name target).bind_quiet fun _ => always_pureE _
    | refer id name target =>
      exact (Collection.ends_refer hk id name target).bind_quiet fun _ => always_pureE _
  exact hends r t h

end Registrar
