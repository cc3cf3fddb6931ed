import Registrar.Proofs.Engine.Operations
import Registrar.Proofs.Program.Interleaving

/-!
# Operations that write what they have loaded

Updates, changes of references, and look-ups that write back what they pruned all have one shape.
They load a document first. Then they read on, and at most once they ask for an update of that
document, under the condition that it still has the version with which it was loaded. Whatever
comes of the update, they are done.

* `Operation.loads?`: which document an operation loads.
* `Program.Loads`, `Program.Guards`: the shape, before and after loading.
* `loads_program`: the operations have the shape.
* `History.loaded`, `History.guarded`: what the shape says of a history.
-/

namespace Registrar

variable {E α β : Type}

/-- **The id of the document that an operation loads**, if it may write it afterwards. -/
def Operation.loads? (k : EntityKind E) : Operation E → Option Uuid
  | .update e _ => some (k.id e)
  | .applyDelta delta => some delta.id
  | .link id _ _ | .unlink id _ _ | .refer id _ _ | .get id true => some id
  | .add _ | .get _ false | .search _ | .assign _ | .deleteListed _ | .delete _ => none

/-- Whether an operation only reads, for its caller. -/
def Operation.isGet : Operation E → Bool
  | .get _ _ => true
  | _ => false

/-- **What is reported of an update**: a conflict when nothing was updated, and otherwise success.
A look-up keeps either to itself. -/
def Operation.Reports (op : Operation E) (id : Uuid)
    (next : Except StoreError Nat → Program (Except Failure α)) : Prop :=
  if op.isGet then
    ∃ r, r ≠ .error (.concurrentModification id.text) ∧ ∀ n, next (.ok n) = .done r
  else
    next (.ok 0) = .done (.error (.concurrentModification id.text)) ∧
      ∃ a, ∀ n, n ≠ 0 → next (.ok n) = .done (.ok a)

theorem Operation.Reports.done {op : Operation E} {id : Uuid}
    {next : Except StoreError Nat → Program (Except Failure α)} (h : op.Reports id next) (n : Nat) :
    ∃ r, next (.ok n) = .done r := by
  rw [Reports] at h
  split at h
  · obtain ⟨r, -, hr⟩ := h
    exact ⟨r, hr n⟩
  · obtain ⟨h0, a, ha⟩ := h
    by_cases hn : n = 0
    · exact ⟨_, hn ▸ h0⟩
    · exact ⟨_, ha n hn⟩

namespace Program

/-! ### The shape -/

/-- **After loading**: reading, and at most one update, which asks for the version. -/
def Guards (c : Collection E) (id : Uuid) (version : Option Int64)
    (reports : (Except StoreError Nat → Program α) → Prop) : Program α → Prop
  | .done _ => True
  | .ask (.store (.updateFirst f _ _)) next => f = (c.unchangedSince id version).1 ∧ reports next
  | .ask r next => r.isQuiet = true ∧ ∀ answer, Guards c id version reports (next answer)

/-- The query by which a document is loaded. -/
def loadQuery (c : Collection E) (caller : Caller) (id : Uuid) : Query :=
  { filter := some (c.visible caller (.hasId id)), limit := some 1 }

/-- **Up to loading**: the first call of the store is for the document. Without it, nothing is
written. -/
def Loads (c : Collection E) (caller : Caller) (id : Uuid)
    (then_ : Document → Program α → Prop) : Program α → Prop
  | .done _ => True
  | .ask (.store (.find query name)) next =>
    query = loadQuery c caller id ∧ name = c.name ∧ (∀ e, (next (.error e)).Quiet) ∧
      (next (.ok [])).Quiet ∧ ∀ d ds, then_ d (next (.ok (d :: ds)))
  | .ask (.store _) _ => False
  | .ask _ next => ∀ answer, Loads c caller id then_ (next answer)

variable {c : Collection E} {caller : Caller} {id : Uuid} {version : Option Int64}
  {reports : (Except StoreError Nat → Program α) → Prop}

/-- **One step up to loading**: it is no call of the store, or it loads the document, or nothing is
written any more. -/
theorem Loads.step {then_ : Document → Program α → Prop} {r : Request} {go : r.Answer → Program α}
    (h : (ask r go).Loads c caller id then_) (answer : r.Answer) :
    r.isQuiet = true ∧
      (((∀ call, r ≠ .store call) ∧ (go answer).Loads c caller id then_) ∨
        (∃ d ds, (⟨r, answer⟩ : (r : Request) × r.Answer) =
            ⟨.store (.find (loadQuery c caller id) c.name), .ok (d :: ds)⟩ ∧ then_ d (go answer)) ∨
        (go answer).Quiet) := by
  cases r with
  | store call =>
    cases call with
    | find query name =>
      obtain ⟨rfl, rfl, herr, hnil, hcons⟩ := h
      refine ⟨rfl, .inr ?_⟩
      rcases answer with e | _ | ⟨d, ds⟩
      · exact .inr (herr e)
      · exact .inr hnil
      · exact .inl ⟨d, ds, rfl, hcons d ds⟩
    | _ => exact h.elim
  | isCancelled => exact ⟨rfl, .inl ⟨fun _ => nofun, h answer⟩⟩
  | newId => exact ⟨rfl, .inl ⟨fun _ => nofun, h answer⟩⟩
  | now => exact ⟨rfl, .inl ⟨fun _ => nofun, h answer⟩⟩

theorem Guards.step {r : Request} {go : r.Answer → Program α}
    (h : (ask r go).Guards c id version reports) (answer : r.Answer) :
    (r.isQuiet = true ∧ (go answer).Guards c id version reports) ∨
      ∃ f u name n next, (⟨r, answer⟩ : (r : Request) × r.Answer) =
          ⟨.store (.updateFirst f u name), n⟩ ∧
        f = (c.unchangedSince id version).1 ∧ reports next ∧ go answer = next n := by
  cases r with
  | store call =>
    cases call with
    | updateFirst f u name => exact .inr ⟨f, u, name, answer, go, rfl, h.1, h.2, rfl⟩
    | _ => exact .inl ⟨h.1, h.2 answer⟩
  | isCancelled => exact .inl ⟨h.1, h.2 answer⟩
  | newId => exact .inl ⟨h.1, h.2 answer⟩
  | now => exact .inl ⟨h.1, h.2 answer⟩

theorem guards_ask_quiet {r : Request} {next : r.Answer → Program α} (hr : r.isQuiet = true) :
    (ask r next).Guards c id version reports ↔
      ∀ answer, (next answer).Guards c id version reports := by
  cases r with
  | store call =>
    cases call <;> first | exact and_iff_right rfl | cases hr
  | isCancelled => exact and_iff_right rfl
  | newId => exact and_iff_right rfl
  | now => exact and_iff_right rfl

theorem guards_bind {p : Program β} {f : β → Program α} (hp : p.Quiet)
    (hf : ∀ b, (f b).Guards c id version reports) :
    (bind p f).Guards c id version reports := by
  induction p with
  | done b => exact hf b
  | ask r next ih => exact (guards_ask_quiet hp.1).mpr fun answer => ih answer (hp.2 answer)

end Program

section

variable {c : Collection E} {caller : Caller} {id : Uuid} {version : Option Int64}
  {ε : Type} {reports : (Except StoreError Nat → Program (Except ε α)) → Prop}

theorem guards_bindE {m : ExceptT ε Program β} {k : β → ExceptT ε Program α} (hm : m.run.Quiet)
    (hk : ∀ b, (k b).run.Guards c id version reports) :
    (m >>= k).run.Guards c id version reports := by
  refine Program.guards_bind hm fun r => ?_
  cases r with
  | ok b => exact hk b
  | error e => exact trivial

end

namespace Collection

variable {c : Collection E} {caller : Caller} {id : Uuid} {v : Int64} {field : String}

/-! ### Writing -/

theorem unchangedSince_eq (hf : c.schema.versionName? = some field) :
    c.unchangedSince id (some v) = (.and [.hasId id, .eq field (.int64 v)], true) := by
  simp [unchangedSince, hf]

theorem writeUpdate_eq (hf : c.schema.versionName? = some field) (u : Update) (place : String) :
    c.writeUpdate id (some v) u place =
      OperationM.inPlace place (StoreM.check >>= fun _ =>
        StoreM.updateFirst (c.unchangedSince id (some v)).1 (c.withVersion u) c.name) >>= fun n =>
      if n = 0 then throw (.concurrentModification id.text) else pure () := by
  simp only [writeUpdate, unchangedSince_eq hf, if_true]

theorem guards_updateFirst {reports : (Except StoreError Nat → Program α) → Prop} {u : Update}
    {name place : String} {next : Except Failure Nat → Program α}
    (hc : ∀ e, (next (.error e)).Guards c id (some v) reports)
    (h : reports fun answer => next (answer.mapError (.ofStore place))) :
    (Program.bind (OperationM.inPlace place (StoreM.check >>= fun _ =>
      StoreM.updateFirst (c.unchangedSince id (some v)).1 u name)).run next).Guards
        c id (some v) reports := by
  refine ⟨rfl, fun cancelled => ?_⟩
  cases cancelled with
  | true => exact hc _
  | false =>
    refine ⟨rfl, cast (congrArg reports (funext fun answer => ?_)) h⟩
    cases answer <;> rfl

/-- **A write that reports** what came of it, and is followed by nothing. -/
theorem guards_writeUpdate (hf : c.schema.versionName? = some field) {op : Operation E}
    (hop : op.isGet = false) (u : Update) (place : String) {k : Unit → OperationM α} {a : α}
    (hk : k () = pure a) :
    (c.writeUpdate id (some v) u place >>= k).run.Guards c id (some v) (op.Reports id) := by
  rw [writeUpdate_eq hf, bind_assoc]
  refine guards_updateFirst (fun e => trivial) ?_
  rw [Operation.Reports, if_neg (by rw [hop]; decide)]
  refine ⟨rfl, a, fun n hn => ?_⟩
  change ((if n = 0 then throw (.concurrentModification id.text) else pure ()) >>= k).run = _
  rw [if_neg hn, pure_bind, hk]
  rfl

theorem guards_writeStamped (hf : c.schema.versionName? = some field) {op : Operation E}
    (hop : op.isGet = false) (changes : Changes) (place : String) {k : Unit → OperationM α} {a : α}
    (hk : k () = pure a) :
    (c.writeStamped caller id (some v) changes place >>= k).run.Guards c id (some v)
      (op.Reports id) := by
  rw [writeStamped, bind_assoc]
  exact guards_bindE (c.quiet_stampedUpdate caller changes) fun u =>
    guards_writeUpdate hf hop u place hk

theorem guards_commit (hf : c.schema.versionName? = some field) {op : Operation E}
    (hop : op.isGet = false) {d : Document} (hd : c.knownVersion d = some v) (changes : Changes)
    (place : String) (g : WriteReport → α) :
    (c.commit caller id d changes place >>= fun r => pure (g r)).run.Guards c id (some v)
      (op.Reports id) := by
  rw [commit_eq]
  split
  · exact trivial
  · rw [bind_assoc]
    refine guards_bindE ?_ fun _ => ?_
    · split
      · exact c.quiet_refuseTakenRename changes id place
      · exact always_pureE _
    · rw [hd, bind_assoc]
      exact guards_writeStamped hf hop changes place (pure_bind _ _)

theorem guards_writeReferences (hf : c.schema.versionName? = some field) {op : Operation E}
    (hop : op.isGet = false) {d : Document} (hd : c.knownVersion d = some v) (r : Relation)
    (value : Value) (place : String) (g : Bool → α) :
    (c.writeReferences caller id d r value place >>= fun b => pure (g b)).run.Guards c id (some v)
      (op.Reports id) := by
  rw [writeReferences, hd, bind_assoc]
  exact guards_writeStamped hf hop _ place (pure_bind _ _)

/-- What a look-up writes back does not count for its caller. -/
theorem guards_persistPruned (hf : c.schema.versionName? = some field) {op : Operation E}
    (hop : op.isGet = true) (changes : Changes) (place : String) {k : Unit → OperationM α}
    {r : Except Failure α} (hr : r ≠ .error (.concurrentModification id.text))
    (hk : (k ()).run = .done r) :
    (c.persistPruned id (some v) changes place >>= k).run.Guards c id (some v)
      (op.Reports id) := by
  rw [persistPruned]
  split
  · have hrun : (OperationM.attempt (c.writeUpdate id (some v) (updateOf changes) place) >>= k).run =
        Program.bind (OperationM.inPlace place (StoreM.check >>= fun _ =>
          StoreM.updateFirst (c.unchangedSince id (some v)).1 (c.withVersion (updateOf changes))
            c.name)).run fun _ => (k ()).run := by
      rw [writeUpdate_eq hf]
      change Program.bind (Program.bind (Program.bind _ _) _) _ = _
      rw [Program.bind_assoc, Program.bind_assoc]
      congr 1
      funext answer
      rcases answer with e | n
      · rfl
      · cases n <;> rfl
    rw [hrun, hk]
    refine guards_updateFirst (fun e => trivial) ?_
    rw [Operation.Reports, if_pos hop]
    exact ⟨r, hr, fun n => rfl⟩
  · refine guards_bindE (always_pureE _) fun _ => ?_
    rw [hk]
    exact trivial

/-! ### Loading -/

theorem loads_load {then_ : Document → Program (Except Failure α) → Prop}
    (hdone : ∀ d r, then_ d (.done r)) {place : String} {k : Document → OperationM α}
    (hk : ∀ d, then_ d (k d).run) :
    (c.load caller id place >>= k).run.Loads c caller id then_ := by
  intro cancelled
  cases cancelled with
  | true => exact trivial
  | false =>
    refine ⟨rfl, rfl, fun e => trivial, trivial, fun d ds => ?_⟩
    have hrun : ∀ g, c.policy.grants c.name id caller = g →
        then_ d ((OperationM.inPlace place (StoreM.ofExcept g) >>= fun accessible =>
          if accessible then pure d else throw (.missing c.name id)) >>= k).run := by
      intro g _
      rcases g with e | accessible
      · exact hdone d _
      · cases accessible with
        | true => exact hk d
        | false => exact hdone d _
    exact hrun _ rfl

theorem loads_relation {then_ : Document → Program (Except Failure α) → Prop} {name : String}
    {cardinality : Cardinality} {k : Relation → OperationM α}
    (hk : ∀ r, (k r).run.Loads c caller id then_) :
    (c.relation name cardinality >>= k).run.Loads c caller id then_ := by
  rw [relation]
  split
  · exact hk _
  · exact trivial

/-- What an operation does with the document that it has loaded. -/
def GuardsLoaded (c : Collection E) (id : Uuid) (op : Operation E) (d : Document)
    (p : Program (Except Failure (Answer E))) : Prop :=
  ∀ v, c.knownVersion d = some v → p.Guards c id (some v) (op.Reports id)

theorem guardsLoaded_done (op : Operation E) (d : Document)
    (r : Except Failure (Answer E)) : GuardsLoaded c id op d (.done r) := fun _ _ => trivial

/-! ### The operations -/

section

variable (hf : c.schema.versionName? = some field)

include hf

theorem loads_update (e : E) (dependencies : Option Bool) :
    ((Operation.update e dependencies).program c caller).run.Loads c caller (c.kind.id e)
      (GuardsLoaded c (c.kind.id e) (.update e dependencies)) := by
  rw [Operation.program, update, bind_assoc]
  refine loads_load (guardsLoaded_done _) fun d v hd => ?_
  rw [bind_assoc]
  refine guards_bindE (always_ofProgram (quiet_ofDraws _)) fun e => ?_
  rw [bind_assoc]
  refine guards_bindE (c.quiet_prunedIf _ _ _ _) fun proposed => ?_
  exact guards_commit hf rfl hd _ _ Answer.wrote

theorem loads_applyDelta (delta : Delta E) :
    ((Operation.applyDelta delta).program c caller).run.Loads c caller delta.id
      (GuardsLoaded c delta.id (.applyDelta delta)) := by
  rw [Operation.program, applyDelta, bind_assoc]
  refine loads_load (guardsLoaded_done _) fun d v hd => ?_
  split
  · exact trivial
  · rw [bind_assoc]
    refine guards_bindE (always_ofProgram (quiet_ofDraws _)) fun e => ?_
    rw [bind_assoc]
    refine guards_bindE (c.quiet_prunedIf _ _ _ _) fun patch => ?_
    exact guards_commit hf rfl hd _ _ Answer.wrote

theorem loads_link (relation : String) (target : Uuid) :
    ((Operation.link id relation target).program c caller).run.Loads c caller id
      (GuardsLoaded c id (.link id relation target)) := by
  rw [Operation.program, link, bind_assoc]
  refine loads_relation fun r => ?_
  rw [bind_assoc]
  refine loads_load (guardsLoaded_done _) fun d v hd => ?_
  dsimp only
  split
  · exact trivial
  · rw [bind_assoc]
    refine guards_bindE (quiet_requireTarget _ _ _) fun _ => ?_
    exact guards_writeReferences hf rfl hd _ _ _ Answer.changed

theorem loads_unlink (relation : String) (target : Uuid) :
    ((Operation.unlink id relation target).program c caller).run.Loads c caller id
      (GuardsLoaded c id (.unlink id relation target)) := by
  rw [Operation.program, unlink, bind_assoc]
  refine loads_relation fun r => ?_
  rw [bind_assoc]
  refine loads_load (guardsLoaded_done _) fun d v hd => ?_
  dsimp only
  split
  · exact guards_writeReferences hf rfl hd _ _ _ Answer.changed
  · exact trivial

theorem loads_refer (relation : String) (target : Option Uuid) :
    ((Operation.refer id relation target).program c caller).run.Loads c caller id
      (GuardsLoaded c id (.refer id relation target)) := by
  rw [Operation.program, refer, bind_assoc]
  refine loads_relation fun r => ?_
  rw [bind_assoc]
  refine loads_load (guardsLoaded_done _) fun d v hd => ?_
  split
  · exact trivial
  · cases target with
    | some t =>
      rw [bind_assoc]
      refine guards_bindE (quiet_requireTarget _ _ _) fun _ => ?_
      exact guards_writeReferences hf rfl hd _ _ _ Answer.changed
    | none => exact guards_writeReferences hf rfl hd _ _ _ Answer.changed

/-- A look-up is no conflict for its caller, whatever comes of its write. -/
theorem loads_lookUp : ((Operation.get id true).program c caller).run.Loads c caller id
    (GuardsLoaded c id (.get id true)) := by
  rw [Operation.program, get, bind_assoc]
  refine loads_load (guardsLoaded_done _) fun d v hd => ?_
  rw [if_pos rfl, bind_assoc]
  refine guards_bindE (always_inPlace (c.schema.quiet_resolve _ _ _ _)) fun out => ?_
  rw [hd, bind_assoc]
  have hread : ∃ r, r ≠ .error (.concurrentModification id.text) ∧
      ((OperationM.inPlace (c.place "get") (c.ofDocument out.1) >>= fun e =>
        pure ⟨e, out.2.keys⟩) >>= fun r => pure (Answer.found r)).run = .done r := by
    rw [ofDocument]
    cases c.kind.ofDocument? out.1 with
    | some e => exact ⟨.ok (.found ⟨e, out.2.keys⟩), nofun, rfl⟩
    | none => exact ⟨.error (.ofStore (c.place "get") (.serialization "")), nofun, rfl⟩
  obtain ⟨r, hr, hrun⟩ := hread
  exact guards_persistPruned hf rfl _ _ hr hrun

/-- **The operations have the shape.** -/
theorem loads_program {op : Operation E} (hop : op.loads? c.kind = some id) :
    (op.program c caller).run.Loads c caller id (GuardsLoaded c id op) := by
  cases op with
  | update e dependencies => cases hop; exact loads_update hf e dependencies
  | applyDelta delta => cases hop; exact loads_applyDelta hf delta
  | link _ relation target => cases hop; exact loads_link hf relation target
  | unlink _ relation target => cases hop; exact loads_unlink hf relation target
  | refer _ relation target => cases hop; exact loads_refer hf relation target
  | get _ lookup =>
    cases lookup with
    | true => cases hop; exact loads_lookUp hf
    | false => cases hop
  | add e => cases hop
  | search p => cases hop
  | assign bulk => cases hop
  | deleteListed ids => cases hop
  | delete _ => cases hop

end

end Collection

/-! ### Histories -/

namespace Pool

variable {c : Collection E} {caller : Caller} {id : Uuid} {version : Option Int64}
  {w : Surroundings} {p : Pool α} {τ : List (Event α)} {i : Nat}

theorem History.isQuiet (h : p.History w τ) (hp : (p.programs i).Quiet) {e : Event α}
    (he : e ∈ τ) (hi : e.actor = i) : e.exchange.1.isQuiet = true := by
  induction h with
  | nil p => cases he
  | @cons p x τ step rest ih =>
    obtain ⟨go, hask, hrest⟩ := step.asks
    by_cases hx : x.actor = i
    · subst hx
      rw [hask] at hp
      rcases List.mem_cons.mp he with rfl | he
      · exact hp.1
      · refine ih ?_ he
        rw [programs_next_self, hrest]
        exact hp.2 _
    · rcases List.mem_cons.mp he with rfl | he
      · exact absurd hi hx
      · refine ih ?_ he
        rwa [programs_next_of_ne hx]

/-- **What is written was loaded before**, by the first call of the store. -/
theorem History.loaded {then_ : Document → Program α → Prop} {τ₁ τ₂ : List (Event α)}
    {e : Event α} (h : p.History w (τ₁ ++ e :: τ₂))
    (hl : (p.programs i).Loads c caller id then_) (hi : e.actor = i)
    (hq : e.exchange.1.isQuiet = false) :
    ∃ σ₁ l σ₂ d ds, τ₁ = σ₁ ++ l :: σ₂ ∧ l.actor = i ∧
      l.exchange = ⟨.store (.find (Program.loadQuery c caller id) c.name), .ok (d :: ds)⟩ ∧
      then_ d l.rest ∧ ∀ x ∈ σ₁, x.actor = i → ∀ call, x.exchange.1 ≠ .store call := by
  induction τ₁ generalizing p with
  | nil =>
    obtain ⟨go, hask, -⟩ := (h.step (σ := [])).asks
    rw [after_nil, hi] at hask
    rw [hask] at hl
    rw [(hl.step e.exchange.2).1] at hq
    cases hq
  | cons x τ₁ ih =>
    obtain ⟨step, rest⟩ := history_cons.mp h
    have hon : ((p.next x).programs i).Loads c caller id then_ →
        (x.actor = i → ∀ call, x.exchange.1 ≠ .store call) →
        ∃ σ₁ l σ₂ d ds, x :: τ₁ = σ₁ ++ l :: σ₂ ∧ l.actor = i ∧
          l.exchange = ⟨.store (.find (Program.loadQuery c caller id) c.name), .ok (d :: ds)⟩ ∧
          then_ d l.rest ∧ ∀ x ∈ σ₁, x.actor = i → ∀ call, x.exchange.1 ≠ .store call := by
      intro hl hx
      obtain ⟨σ₁, l, σ₂, d, ds, rfl, hli, hfind, hthen, hbefore⟩ := ih rest hl
      refine ⟨x :: σ₁, l, σ₂, d, ds, rfl, hli, hfind, hthen, fun y hy => ?_⟩
      rcases List.mem_cons.mp hy with rfl | hy
      · exact hx
      · exact hbefore y hy
    by_cases hx : x.actor = i
    · obtain ⟨go, hask, hrest⟩ := step.asks
      have hrun : (p.next x).programs i = go x.exchange.2 := by
        rw [← hx, programs_next_self, hrest]
      rw [← hx, hask] at hl
      rcases (hl.step x.exchange.2).2 with ⟨hstore, hgo⟩ | ⟨d, ds, hfind, hthen⟩ | hgo
      · exact hon (hrun ▸ hgo) fun _ => hstore
      · exact ⟨[], x, τ₁, d, ds, rfl, hx, hfind, hrest ▸ hthen, by simp⟩
      · have := rest.isQuiet (hrun ▸ hgo) (List.mem_append_right τ₁ List.mem_cons_self) hi
        rw [hq] at this
        cases this
    · exact hon (by rwa [programs_next_of_ne hx]) fun h => absurd h hx

/-- **After loading** a program makes one update at most, and reports what came of it. -/
theorem History.guarded {op : Operation E} {σ τ : List (Event (Except Failure α))}
    {p : Pool (Except Failure α)} {e : Event (Except Failure α)} (h : p.History w (σ ++ e :: τ))
    (hp : (p.programs i).Guards c id version (op.Reports id)) (hi : e.actor = i)
    (hq : e.exchange.1.isQuiet = false) :
    ∃ f u name n next, e.exchange = ⟨.store (.updateFirst f u name), n⟩ ∧
      f = (c.unchangedSince id version).1 ∧ op.Reports id next ∧ e.rest = next n := by
  induction σ generalizing p with
  | nil =>
    obtain ⟨go, hask, hrest⟩ := (h.step (σ := [])).asks
    rw [after_nil, hi] at hask
    rw [hask] at hp
    rcases hp.step e.exchange.2 with ⟨hr, -⟩ | hupdate
    · rw [hr] at hq
      cases hq
    · rwa [← hrest] at hupdate
  | cons x σ ih =>
    obtain ⟨step, rest⟩ := history_cons.mp h
    by_cases hx : x.actor = i
    · obtain ⟨go, hask, hrest⟩ := step.asks
      have hrun : (p.next x).programs i = go x.exchange.2 := by
        rw [← hx, programs_next_self, hrest]
      rw [← hx, hask] at hp
      rcases hp.step x.exchange.2 with ⟨-, hgo⟩ | ⟨f, u, name, n, next, hex, -, hreports, hgo⟩
      · exact ih rest (hrun ▸ hgo)
      · have hreply := step.reply
        rw [show x.exchange = ⟨.store (.updateFirst f u name), n⟩ from hex] at hreply
        obtain ⟨r, hr⟩ := hreports.done (x.before.updateFirst f u name).2
        have hn : n = .ok (x.before.updateFirst f u name).2 := by
          exact congrArg Prod.fst (hreply.replies rfl)
        have hquiet : ((p.next x).programs i).Quiet := by
          rw [hrun, hgo, hn, hr]
          exact trivial
        have := rest.isQuiet hquiet (List.mem_append_right σ List.mem_cons_self) hi
        rw [hq] at this
        cases this
    · exact ih rest (by rwa [programs_next_of_ne hx])

end Pool

end Registrar
