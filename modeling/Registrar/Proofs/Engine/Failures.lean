import Registrar.Proofs.Engine.Ceiling
import Registrar.Proofs.Engine.Spoiling
import Registrar.Proofs.Program.Careful
import Registrar.Proofs.Store.Misses

/-!
# Operations that fail

All operations are careful: they write at most once, after everything that can be cancelled, and
then they are done. When one fails after its write was requested, the answer told that nothing was
written. There are two exceptions. A look-up does not care what comes of its write, and fails if the
entity cannot be read. A new entity is read back after it was inserted, and this may fail too.

* `Answer.tellsNoChange`: the answers which tell that nothing has changed.
* `Operation.Fits`: the results that fit the answer to the write of an operation.
* `careful_program`: the operations are careful.
* `Collection.PrunedOnly`: what a look-up may leave.
* `prunedOnly_get`: it leaves nothing else.
* `isOk_add_iff`: when a new entity is given back.
* `failed_clean_iff`: when a failure leaves something.
-/

namespace Registrar

variable {E α β : Type}

/-- A failure means that nothing was written. -/
def FailsIdle : Fitting (Except Failure α) := fun call answer r =>
  r.isOk = false → call.Misses answer

/-- A new entity is given back if it can be read. -/
def Collection.ReadsBack (c : Collection E) : Fitting (Except Failure α)
  | .insert _ d name, .ok _, r => name = c.name ∧ r.isOk = (c.kind.ofDocument? d).isSome
  | .insert _ _ _, .error _, _ => True
  | _, _, _ => False

/-- The result is a failure, or it tells that nothing has changed. -/
def TellsIdle (idle : α → Bool) : Except Failure α → Prop
  | .ok a => idle a = true
  | .error _ => True

/-- A result that tells of no change means that nothing was written. -/
def IdleIf (idle : α → Bool) : Fitting (Except Failure α) := fun call answer r =>
  TellsIdle idle r → call.Misses answer

/-- A write that succeeds is reported with what was changed, and its failure means that nothing was
written. -/
def ReportsChanges : Fitting (Except Failure WriteReport)
  | _, _, .ok report => report.wroteNothing = false
  | call, answer, .error _ => call.Misses answer

/-- **The answers which tell that nothing has changed.** -/
def Answer.tellsNoChange : Answer α → Bool
  | .wrote report => report.wroteNothing
  | .number n => n == 0
  | .changed b => !b
  | .found _ | .page _ => true
  | .added _ | .deleted => false

/-- **The results that fit** the answer to the write of an operation. -/
def Operation.Fits (c : Collection E) : Operation E → Fitting (Except Failure (Answer α))
  | .add _ => c.ReadsBack
  | .get _ _ => fun _ _ _ => True
  | _ => IdleIf Answer.tellsNoChange

section

variable {call : StoreCall} {answer : Except StoreError call.Result} {r : Except Failure α}
  {idle : α → Bool} {idle' : β → Bool}

theorem idleIf_map {g : α → β} (hg : ∀ a, idle' (g a) = idle a) (h : IdleIf idle call answer r) :
    IdleIf idle' call answer (r.map g) := by
  cases r with
  | ok a => exact fun hidle => h ((hg a).symm.trans hidle)
  | error e => exact h

theorem FailsIdle.idleIf {g : α → β} (hg : ∀ a, idle' (g a) = false)
    (h : FailsIdle call answer r) : IdleIf idle' call answer (r.map g) := by
  cases r with
  | ok a => exact fun hidle => absurd ((hg a).symm.trans hidle) Bool.false_ne_true
  | error e => exact fun _ => h rfl

theorem ReportsChanges.idleIf {r : Except Failure WriteReport} (h : ReportsChanges call answer r) :
    IdleIf WriteReport.wroteNothing call answer r := by
  cases r with
  | ok report => exact fun hidle => absurd (h.symm.trans hidle) Bool.false_ne_true
  | error e => exact fun _ => h

theorem IdleIf.failsIdle (h : IdleIf idle call answer r) : FailsIdle call answer r := by
  cases r with
  | ok a => exact nofun
  | error e => exact fun _ => h trivial

end

namespace Collection

variable {c : Collection E} {caller : Caller} {id : Uuid} {version : Option Int64}

theorem readsBack_map {call : StoreCall} {answer : Except StoreError call.Result}
    {r : Except Failure α} (g : α → β) (h : c.ReadsBack call answer r) :
    c.ReadsBack call answer (r.map g) := by
  have hok : (r.map g).isOk = r.isOk := by cases r <;> rfl
  cases call with
  | insert id d name =>
    cases answer with
    | ok _ => exact ⟨h.1, hok.trans h.2⟩
    | error e => exact trivial
  | _ => exact h.elim

/-! ### The shape of operations -/

theorem careful_writeUpdate (u : Update) (place : String) :
    (c.writeUpdate id version u place).run.Careful FailsIdle := by
  rw [writeUpdate_steps]
  refine careful_write rfl (fun n => ?_) fun _ _ => trivial
  by_cases hn : n = 0
  · rw [if_pos hn]
    split <;> exact ⟨_, rfl, fun _ => hn⟩
  · rw [if_neg hn]
    exact ⟨_, rfl, nofun⟩

theorem careful_writeStamped (changes : Changes) (place : String) :
    (c.writeStamped caller id version changes place).run.Careful FailsIdle :=
  careful_bindE (c.quiet_stampedUpdate caller changes) fun _ => careful_writeUpdate _ _

theorem careful_commit (d : Document) (changes : Changes) (place : String) :
    (c.commit caller id d changes place).run.Careful ReportsChanges := by
  rw [commit_eq]
  split
  · exact trivial
  · rename_i hchanges
    have hreport : WriteReport.wroteNothing ⟨id, changes.keys⟩ = false := by
      cases changes with
      | nil => exact absurd rfl hchanges
      | cons p r => rfl
    refine careful_bindE ?_ fun _ => careful_mapE (careful_writeStamped _ _) _ fun _ _ r h => ?_
    · split
      · exact c.quiet_refuseTakenRename changes id place
      · exact always_pureE _
    · cases r with
      | ok _ => exact hreport
      | error e => exact h rfl

theorem careful_writeReferences (d : Document) (r : Relation) (value : Value) (place : String) :
    (c.writeReferences caller id d r value place).run.Careful (IdleIf (!·)) :=
  careful_mapE (careful_writeStamped _ _) _ fun _ _ _ => FailsIdle.idleIf fun _ => rfl

theorem careful_add (e : E) : (c.add caller e).run.Careful c.ReadsBack := by
  rw [add_eq]
  refine careful_bindE (c.quiet_prepared e) fun e' => ?_
  refine careful_bindE (always_inPlace (quiet_entityExists _ _)) fun taken => ?_
  refine careful_bindE ?_ fun _ => careful_bindE ?_ fun _ => ?_
  · split
    · exact always_throwE _
    · exact always_pureE _
  · split
    · exact c.quiet_refuseTakenName _ _ _
    · exact always_pureE _
  refine careful_bindE (always_inPlace (c.schema.quiet_resolve _ _ _ _)) fun out => ?_
  refine careful_bindE (c.quiet_stampedNew caller _) fun d => ?_
  refine careful_write rfl (fun _ => ?_) fun _ => trivial
  rw [ofDocument]
  cases hread : c.kind.ofDocument? d with
  | some e => exact ⟨_, rfl, rfl, by rw [hread]; rfl⟩
  | none => exact ⟨_, rfl, rfl, by rw [hread]; rfl⟩

theorem quiet_get : (c.get caller id false).run.Quiet :=
  always_bindE (c.quiet_load caller id _) fun _ =>
    always_bindE (always_inPlace (always_ofExcept _)) fun _ => always_pureE _

/-- A look-up is done after its write, whatever comes of it. -/
theorem careful_get (lookup : Bool) :
    (c.get caller id lookup).run.Careful fun _ _ _ => True := by
  cases lookup with
  | false => exact Program.careful_of_quiet quiet_get
  | true =>
    refine careful_bindE (c.quiet_load caller id _) fun d => ?_
    refine careful_bindE (always_inPlace (c.schema.quiet_resolve _ _ _ _)) fun out => ?_
    have hpersist : (c.persistPruned id (c.knownVersion d) out.2 (c.place "get")).run.Careful
        fun _ _ _ => True := by
      have hwrite : (c.writeUpdate id (c.knownVersion d) (updateOf out.2)
          (c.place "get")).run.Careful FailsIdle := careful_writeUpdate _ _
      rw [persistPruned]
      split
      · exact hwrite.bind_done fun _ => ⟨_, rfl, fun _ _ _ => trivial⟩
      · exact trivial
    refine hpersist.bind_done fun r => ?_
    cases r with
    | error e => exact ⟨_, rfl, fun _ _ _ => trivial⟩
    | ok _ =>
      rw [ofDocument]
      cases c.kind.ofDocument? out.1 <;> exact ⟨_, rfl, fun _ _ _ => trivial⟩

theorem careful_update (e : E) (asked : Option Bool) :
    (c.update caller e asked).run.Careful ReportsChanges := by
  refine careful_bindE (c.quiet_load caller _ _) fun d => ?_
  refine careful_bindE (always_ofProgram (quiet_ofDraws _)) fun e => ?_
  refine careful_bindE (c.quiet_prunedIf _ _ _ _) fun proposed => ?_
  exact careful_commit _ _ _

theorem careful_applyDelta (delta : Delta E) :
    (c.applyDelta caller delta).run.Careful ReportsChanges := by
  refine careful_bindE (c.quiet_load caller _ _) fun d => ?_
  split
  · exact trivial
  · refine careful_bindE (always_ofProgram (quiet_ofDraws _)) fun e => ?_
    refine careful_bindE (c.quiet_prunedIf _ _ _ _) fun patch => ?_
    exact careful_commit _ _ _

theorem careful_link (relation : String) (target : Uuid) :
    (c.link caller id relation target).run.Careful (IdleIf (!·)) := by
  refine careful_bindE (c.quiet_relation _ _) fun r => ?_
  refine careful_bindE (c.quiet_load caller _ _) fun d => ?_
  dsimp only
  split
  · exact trivial
  · refine careful_bindE (quiet_requireTarget _ _ _) fun _ => ?_
    exact careful_writeReferences _ _ _ _

theorem careful_unlink (relation : String) (target : Uuid) :
    (c.unlink caller id relation target).run.Careful (IdleIf (!·)) := by
  refine careful_bindE (c.quiet_relation _ _) fun r => ?_
  refine careful_bindE (c.quiet_load caller _ _) fun d => ?_
  dsimp only
  split
  · exact careful_writeReferences _ _ _ _
  · exact trivial

theorem careful_refer (relation : String) (target : Option Uuid) :
    (c.refer caller id relation target).run.Careful (IdleIf (!·)) := by
  refine careful_bindE (c.quiet_relation _ _) fun r => ?_
  refine careful_bindE (c.quiet_load caller _ _) fun d => ?_
  split
  · exact trivial
  · cases target with
    | some t =>
      refine careful_bindE (quiet_requireTarget _ _ _) fun _ => ?_
      exact careful_writeReferences _ _ _ _
    | none => exact careful_writeReferences _ _ _ _

theorem careful_assign (bulk : Assignment E) :
    (c.assign caller bulk).run.Careful (IdleIf (· == 0)) := by
  refine careful_bindE (always_inPlace (always_ofExcept _)) fun ids => ?_
  split
  · exact trivial
  refine careful_bindE (always_ofProgram (quiet_ofDraws _)) fun e => ?_
  refine careful_bindE (c.quiet_prunedIf _ _ _ _) fun patch => ?_
  dsimp only
  split
  · exact trivial
  refine careful_bindE (c.quiet_refuseShared _ _) fun _ => ?_
  refine careful_bindE (c.quiet_stampedUpdate caller _) fun u => ?_
  rw [← bind_pure (OperationM.inPlace _ _)]
  exact careful_write rfl (fun n => ⟨_, rfl, fun hn => eq_of_beq hn⟩) fun _ _ => trivial

theorem careful_deleteListed (ids : List Uuid) :
    (c.deleteListed caller ids).run.Careful (IdleIf (· == 0)) := by
  refine careful_bindE (always_inPlace (always_ofExcept _)) fun ids => ?_
  split
  · exact trivial
  · rw [← bind_pure (OperationM.inPlace _ _)]
    exact careful_write rfl (fun n => ⟨_, rfl, fun hn => eq_of_beq hn⟩) fun _ _ => trivial

theorem careful_delete : (c.delete caller id).run.Careful FailsIdle := by
  refine careful_bindE (c.quiet_load caller _ _) fun _ => ?_
  refine careful_write rfl (fun n => ?_) fun _ _ => trivial
  by_cases hn : n = 0
  · rw [if_pos hn]
    exact ⟨_, rfl, fun _ => hn⟩
  · rw [if_neg hn]
    exact ⟨_, rfl, nofun⟩

/-- **The operations are careful.** -/
theorem careful_program (op : Operation E) :
    (op.program c caller).run.Careful (op.Fits c) := by
  have hidle : ∀ {α : Type} {idle : α → Bool} {m : OperationM α} (g : α → Answer E),
      (∀ a, (g a).tellsNoChange = idle a) → m.run.Careful (IdleIf idle) →
        (m >>= fun a => pure (g a)).run.Careful (IdleIf Answer.tellsNoChange) :=
    fun g hg hm => careful_mapE hm g fun _ _ _ => idleIf_map hg
  have hreport : ∀ {m : OperationM WriteReport}, m.run.Careful ReportsChanges →
      (m >>= fun report => pure (.wrote report)).run.Careful
        (IdleIf (Answer.tellsNoChange (α := E))) :=
    fun hm => careful_mapE hm _ fun _ _ _ h => idleIf_map (fun _ => rfl) h.idleIf
  cases op with
  | add e => exact careful_mapE (careful_add e) _ fun _ _ _ => readsBack_map _
  | get id lookup => exact careful_mapE (careful_get lookup) _ fun _ _ _ _ => trivial
  | search p =>
    exact Program.careful_of_quiet (always_bindE (c.quiet_search caller p) fun _ => always_pureE _)
  | update e asked => exact hreport (careful_update e asked)
  | applyDelta delta => exact hreport (careful_applyDelta delta)
  | assign bulk => exact hidle _ (fun _ => rfl) (careful_assign bulk)
  | deleteListed ids => exact hidle _ (fun _ => rfl) (careful_deleteListed ids)
  | delete id => exact careful_mapE careful_delete _ fun _ _ _ => FailsIdle.idleIf fun _ => rfl
  | link id relation target => exact hidle _ (fun _ => rfl) (careful_link relation target)
  | unlink id relation target => exact hidle _ (fun _ => rfl) (careful_unlink relation target)
  | refer id relation target => exact hidle _ (fun _ => rfl) (careful_refer relation target)

/-! ### What a look-up leaves -/

/-- **A document with fewer references**: nothing but the fields of relations has changed, these
have some of the ids that they had, and the write was counted. -/
structure Pruned (c : Collection E) (d d' : Document) : Prop where
  others : ∀ name, (∀ r ∈ c.schema.relations, name ≠ r.idField) →
    c.schema.versionName? ≠ some name → d'.value? name = d.value? name
  references : ∀ r ∈ c.schema.relations, d'.value? r.idField = d.value? r.idField ∨
    ∃ kept, (∀ id ∈ kept, id ∈ r.targetIds d) ∧ d'.value? r.idField = some (r.prunedValue kept)
  version : ∀ field, c.schema.versionName? = some field → ∃ v,
    d.value? field = some (.int64 v) ∧ d'.value? field = some (.int64 (nextVersion v))

/-- **What a look-up may leave**: one document is pruned. -/
structure PrunedOnly (c : Collection E) (s : Store) (id : Uuid) (t : Store) : Prop where
  others : ∀ name k d, ¬ (name = c.name ∧ k = id) →
    ((k, d) ∈ t.entries name ↔ (k, d) ∈ s.entries name)
  pruned : ∃ d d', (id, d) ∈ s.entries c.name ∧ (id, d') ∈ t.entries c.name ∧ c.Pruned d d'

variable {w : Surroundings} {s t : Store}

theorem reference_of_short (hs : c.schema.Lawful) {d : Document} {changes : Changes}
    (short : ∀ p ∈ changes, ∃ r ∈ c.schema.relations, r.Shortened d p) {p : String × Value}
    (hp : p ∈ changes) : '.' ∉ p.1.toList ∧ c.schema.Permits p.1 := by
  obtain ⟨r, hr, hname, -⟩ := short p hp
  obtain ⟨f, hf, -, hfield⟩ := hs.references r hr
  rw [hname]
  exact ⟨hfield ▸ hs.dotless f hf, hs.permits_reference hr⟩

/-- **A document that is written back** after a look-up is pruned. -/
theorem pruned_of_short (hs : c.schema.Lawful) (hl : c.schema.Linked) {field : String}
    (hf : c.schema.versionName? = some field) {changes : Changes} {d : Document}
    (short : ∀ p ∈ changes, ∃ r ∈ c.schema.relations, r.Shortened d p) {v : Int64}
    (hv : d.value? field = some (.int64 v)) (h0 : 0 ≤ v.toInt) (hb : v.toInt ≤ lastVersion) :
    c.Pruned d ((c.withVersion { sets := changes }).apply d) := by
  have hdotless : ∀ p ∈ changes, '.' ∉ p.1.toList := fun p hp => (reference_of_short hs short hp).1
  refine ⟨fun name hname hversion => ?_, fun r hr => ?_, fun field' hf' => ?_⟩
  · rw [value?_written_of_ne hs hversion]
    refine (Document.value?_setAll_of_dotless hdotless name d).resolve_right ?_
    rintro ⟨value, hmem, -⟩
    obtain ⟨r, hr, heq, -⟩ := short _ hmem
    exact hname r hr heq
  · obtain ⟨g, hg, hrole, hgname⟩ := hs.references r hr
    rw [← hgname, value?_versioned hs hg (by rw [hrole]; exact FieldRole.noConfusion), hgname]
    refine (Document.value?_setAll_of_dotless hdotless r.idField d).imp id ?_
    rintro ⟨value, hmem, hvalue⟩
    obtain ⟨r', hr', heq, kept, hkept, rfl⟩ := short _ hmem
    obtain rfl : r = r' := List.inj_on_of_nodup_map hl.nodup hr hr' heq
    exact ⟨kept, hkept, hvalue⟩
  · rw [hf] at hf'
    cases hf'
    exact ⟨v, hv, value?_versioned_next hs hf rfl
      (fun p hp => (reference_of_short hs short hp).2) hv h0 hb⟩

/-- **A look-up leaves nothing else**, and without looking up nothing is left. -/
theorem prunedOnly_get (hs : c.schema.Lawful) (hl : c.schema.Linked) {field : String}
    (hf : c.schema.versionName? = some field) (hk : s.Keyed) (hd : s.Distinct)
    (hcounted : Counted field (s.entries c.name)) {lookup : Bool} {r : Except Failure (Answer E)}
    (h : ((Operation.get id lookup).program c caller).run.Runs w s r t) :
    t = s ∨ lookup = true ∧ c.PrunedOnly s id t := by
  cases lookup with
  | false => exact .inl (h.eq_of_quiet (always_bindE quiet_get fun _ => always_pureE _))
  | true =>
    cases effect_program hs hl hk _ h with
    | idle => exact .inl rfl
    | updated _ proposes => cases proposes
    | @pruned _ _ d changes stored short =>
      -- The write asks for the version that was read, so it may find no document.
      by_cases hsame : (c.writtenTo s id d changes).entries c.name = s.entries c.name
      · rw [entries_writtenTo] at hsame
        exact .inl (Store.modify_of_same hd hsame)
      · obtain ⟨v, hv, h0, hb⟩ := hcounted.version _ stored
        exact .inr ⟨rfl, fun _ _ _ => mem_writtenTo_of_ne hk, d, _, stored,
          written_of_ne hk stored hsame, pruned_of_short hs hl hf short hv h0 hb⟩

/-! ### What operations that fail leave -/

end Collection

/-- An entity of a certain sort is added. -/
def Operation.Adds (sort : E → Prop) : Operation E → Prop
  | .add e => sort e
  | _ => False

theorem Operation.adds_congr {sort sort' : E → Prop} (h : ∀ e, sort e ↔ sort' e)
    (op : Operation E) : op.Adds sort ↔ op.Adds sort' := by
  cases op with
  | add e => exact h e
  | _ => exact Iff.rfl

namespace Collection

variable {c : Collection E} {caller : Caller} {w : Surroundings} {s t : Store} {op : Operation E}
  {l : List Exchange} {r : Except Failure (Answer E)}

/-- **A look-up has pruned the entity** that it is about. -/
def Prunes (c : Collection E) (s t : Store) : Operation E → Prop
  | .get id true => c.PrunedOnly s id t
  | _ => False

theorem eq_of_failed (hd : s.Distinct) (hop : op.Fits c = IdleIf (Answer.tellsNoChange (α := E)))
    (h : (op.program c caller).run.Exchanges w s l r t) (hr : r.isOk = false) : t = s := by
  rcases (careful_program op).exchanges_cases h with
    ⟨-, rfl⟩ | ⟨-, call, answer, -, -, -, hreply, hfits⟩
  · rfl
  · rw [hop] at hfits
    exact hreply.eq_of_misses hd (hfits.failsIdle hr)

section

variable {takers : List Taker} {parts : String → List (String × Taker)}
  (hread : c.kind.ReadBy takers parts) (hfit : c.kind.FitFor takers) (hs : c.schema.Lawful)
  (hl : c.schema.Linked) (hk : s.Keyed)

include hread hfit hs hl hk

/-- **A new entity is given back** just if it fits. -/
theorem isOk_add_iff {e : E}
    (h : ((Operation.add e).program c caller).run.Exchanges w s l r t) (hne : t ≠ s) :
    r.isOk = true ↔ ¬ c.kind.Unfit takers e := by
  rcases (careful_program (.add e)).exchanges_cases h with
    ⟨-, rfl⟩ | ⟨-, call, answer, -, -, -, hreply, hfits⟩
  · exact absurd rfl hne
  -- The exchanges tell which document was inserted, and the effect of which entity it is.
  cases effect_program hs hl hk _ h.runs with
  | idle => exact absurd rfl hne
  | updated _ proposes => cases proposes
  | @added _ e' now _ prepares _ inserts =>
    match call, answer with
    | .insert _ _ _, .error _ => exact absurd hreply.eq_of_error hne
    | .insert id d _, .ok a =>
      obtain ⟨rfl, hok⟩ := hfits
      have hinserts : s.insert id d c.name = .ok t := by
        have hserve : (Except.ok a, t) = s.serve (.insert id d c.name) := hreply
        rw [Store.serve] at hserve
        cases hinsert : s.insert id d c.name with
        | ok t' =>
          rw [hinsert] at hserve
          rw [(Prod.mk.inj hserve).2]
        | error e =>
          rw [hinsert] at hserve
          cases (Prod.mk.inj hserve).1
      obtain ⟨-, rfl⟩ := Store.insert_inj hinserts inserts
      rw [hok, ← unfit_congr (alike_of_prepares hfit prepares)]
      refine ⟨fun hsome hunfit => ?_, fun hnot => (intact_new hread hfit hs hnot now).isSome hread⟩
      exact (refused_new hfit hs hunfit now).not_isSome hread hsome

/-- **When a failure leaves something**: apart from what a look-up pruned, this happens if an entity
was added that does not fit. -/
theorem failed_clean_iff {field : String} (hf : c.schema.versionName? = some field)
    (hd : s.Distinct) (hcounted : Counted field (s.entries c.name))
    (h : (op.program c caller).run.Exchanges w s l r t) :
    (r.isOk = false → t = s ∨ c.Prunes s t op) ↔ ¬ (op.Adds (c.kind.Unfit takers) ∧ t ≠ s) := by
  have hclean : op.Fits c = IdleIf (Answer.tellsNoChange (α := E)) → ¬ op.Adds (c.kind.Unfit takers) →
      ((r.isOk = false → t = s ∨ c.Prunes s t op) ↔ ¬ (op.Adds (c.kind.Unfit takers) ∧ t ≠ s)) :=
    fun hop hnot => iff_of_true (fun hr => .inl (eq_of_failed hd hop h hr)) fun h => hnot h.1
  cases op with
  | add e =>
    by_cases hne : t = s
    · exact iff_of_true (fun _ => .inl hne) fun h => h.2 hne
    · have hfailed : r.isOk = false ↔ c.kind.Unfit takers e := by
        rw [← Bool.not_eq_true, isOk_add_iff hread hfit hs hl hk h hne, not_not]
      exact ⟨fun hr hunfit => (hr (hfailed.mpr hunfit.1)).elim hne id,
        fun hnot hr => (hnot ⟨hfailed.mp hr, hne⟩).elim⟩
  | get id lookup =>
    refine iff_of_true (fun _ => ?_) fun h => h.1
    rcases prunedOnly_get hs hl hf hk hd hcounted h.runs with heq | ⟨rfl, hpruned⟩
    · exact .inl heq
    · exact .inr hpruned
  | _ => exact hclean rfl not_false

end

end Collection

end Registrar
