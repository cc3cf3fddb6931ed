import Registrar.Proofs.Directory.Kinds
import Registrar.Proofs.Engine.Finding
import Registrar.Proofs.Engine.Guarded
import Registrar.Proofs.Engine.Versions

/-!
# No update is lost

Operations of one collection run at once, their requests in any order, on a store in which the
collection is empty at first. An operation that loads a document and writes it later may find that
others were quicker. Its write takes place exactly when the document still exists and nobody has
written it since it was loaded. Otherwise nothing is changed and the operation reports a conflict.

* `Event.Touches`: a turn that writes a document.
* `NeverReturns`: what was deleted does not come back.
* `untouched_or_later`: since a document was loaded, nobody has touched it, or it is gone or has a
  later version.
* `Commits`, `Conflicts`: the two ways in which a guarded write ends.
* `commits_iff_untouched`: which of them it is.
-/

namespace Registrar

variable {E α : Type}

/-! ### Turns that write -/

/-- The turn writes the document. -/
def Event.Touches (e : Event α) (name : String) (id : Uuid) : Prop :=
  e.exchange.1.Concerns e.before name id

/-- **What was deleted does not come back.** -/
def NeverReturns (name : String) (τ : List (Event α)) : Prop :=
  τ.Pairwise fun x y => ∀ id, x.before.Has name id → ¬ x.after.Has name id →
    ¬ (¬ y.before.Has name id ∧ y.after.Has name id)

theorem neverReturns_of_kept {name : String} {τ : List (Event α)}
    (h : ∀ x ∈ τ, ∀ id ∈ (x.before.entries name).map Prod.fst,
      id ∈ (x.after.entries name).map Prod.fst) : NeverReturns name τ :=
  List.pairwise_of_forall_mem_list fun x hx _ _ id hb ha => absurd (h x hx id hb) ha

namespace Pool

variable {c : Collection E} {w : Surroundings} {p : Pool α} {τ : List (Event α)} {field : String}

/-- The programs keep to the requests of operations, and versions are told. -/
structure Sound (c : Collection E) (field : String) (p : Pool α) : Prop where
  issues : ∀ i, (p.programs i).Always c.Issues
  versioned : Versioned field (p.store.entries c.name)

theorem Step.writes {e : Event α} (h : p.Step w e) (hp : p.Sound c field) :
    c.Writes (p.store.entries c.name) (e.after.entries c.name)
      (e.exchange.1.Concerns p.store c.name) := by
  have hr := h.reply
  rw [h.before] at hr
  exact c.writes_reply (h.always_next hp.issues).1 hr

theorem Sound.next (hs : c.schema.Lawful) (hf : c.schema.versionName? = some field) {e : Event α}
    (hp : p.Sound c field) (h : p.Step w e) (hb : SmallVersions field (e.before.entries c.name)) :
    (p.next e).Sound c field where
  issues := (h.always_next hp.issues).2
  versioned := (h.writes hp).versioned hs hf hp.versioned (h.before ▸ hb)

theorem Sound.after (hs : c.schema.Lawful) (hf : c.schema.versionName? = some field)
    (hp : p.Sound c field) (h : p.History w τ)
    (hb : ∀ x ∈ τ, SmallVersions field (x.before.entries c.name)) : (p.after τ).Sound c field :=
  h.invariant hp fun _ e he hp hstep => hp.next hs hf hstep (hb e he)

theorem History.stays_away {id : Uuid} (h : p.History w τ) (hp : ¬ p.store.Has c.name id)
    (hn : ∀ y ∈ τ, ¬ (¬ y.before.Has c.name id ∧ y.after.Has c.name id)) :
    ¬ (p.after τ).store.Has c.name id := by
  induction h with
  | nil p => exact hp
  | @cons p y τ step rest ih =>
    refine ih (fun hy => ?_) fun z hz => hn z (List.mem_cons_of_mem y hz)
    exact hn y List.mem_cons_self ⟨step.before ▸ hp, hy⟩

/-- **Since a document was loaded**, nobody has touched it and it is still as it was, or somebody
has, and then it is gone or has a later version. -/
theorem untouched_or_later (hs : c.schema.Lawful) (hf : c.schema.versionName? = some field)
    (hp : p.Sound c field) (h : p.History w τ)
    (hb : ∀ x ∈ τ, SmallVersions field (x.before.entries c.name)) (hn : NeverReturns c.name τ)
    {id : Uuid} {d : Document} {v : Int64} (hd : (id, d) ∈ p.store.entries c.name)
    (hv : d.value? field = some (.int64 v)) :
    ((∀ x ∈ τ, ¬ x.Touches c.name id) ∧ (id, d) ∈ (p.after τ).store.entries c.name) ∨
      ((∃ x ∈ τ, x.Touches c.name id) ∧ ∀ d', (id, d') ∈ (p.after τ).store.entries c.name →
        ∃ v' : Int64, d'.value? field = some (.int64 v') ∧ v.toInt < v'.toInt) := by
  induction h generalizing d v with
  | nil p => exact .inl ⟨by simp, hd⟩
  | @cons p x τ step rest ih =>
    have hb' : ∀ y ∈ τ, SmallVersions field (y.before.entries c.name) :=
      fun y hy => hb y (List.mem_cons_of_mem x hy)
    have hbx : SmallVersions field (p.store.entries c.name) :=
      step.before ▸ hb x List.mem_cons_self
    have hp' := hp.next hs hf step (hb x List.mem_cons_self)
    have hw := step.writes hp
    rw [NeverReturns, List.pairwise_cons] at hn
    by_cases hc : x.Touches c.name id
    · have hc' : x.exchange.1.Concerns p.store c.name id := step.before ▸ hc
      refine .inr ⟨⟨x, List.mem_cons_self, hc⟩, fun d' hd' => ?_⟩
      by_cases hx : ∃ d₁, (id, d₁) ∈ x.after.entries c.name
      · obtain ⟨d₁, hd₁⟩ := hx
        have hv₁ := hw.next_version hs hf hp.versioned hbx hc' hd hv hd₁
        obtain ⟨v₀, hv₀, h0⟩ := hp.versioned.version _ hd
        obtain rfl : v₀ = v := by
          rw [hv] at hv₀
          cases hv₀
          rfl
        have hsucc := toInt_succ h0 (hbx _ hd _ hv)
        rcases ih hp' hb' hn.2 hd₁ hv₁ with ⟨-, hsame⟩ | ⟨-, hlater⟩
        · obtain rfl := Entries.eq_of_mem (hp'.after hs hf rest hb').versioned.nodup hd' hsame
          exact ⟨v₀ + 1, hv₁, by omega⟩
        · obtain ⟨v', hv', hlt⟩ := hlater d' hd'
          exact ⟨v', hv', by omega⟩
      · have hgone := rest.stays_away (fun h => hx (Store.has_iff.mp h))
          fun y hy => hn.1 y hy id (step.before ▸ Store.has_iff.mpr ⟨d, hd⟩)
            fun h => hx (Store.has_iff.mp h)
        exact absurd (Store.has_iff.mpr ⟨d', hd'⟩) hgone
    · have hc' : ¬ x.exchange.1.Concerns p.store c.name id := step.before ▸ hc
      have hd₁ := (hw.mem_iff_of_not_concerned hp.versioned.toKeyed hc' d).mpr hd
      rcases ih hp' hb' hn.2 hd₁ hv with ⟨hnone, hsame⟩ | ⟨⟨y, hy, hty⟩, hlater⟩
      · refine .inl ⟨fun y hy => ?_, hsame⟩
        rcases List.mem_cons.mp hy with rfl | hy
        · exact hc
        · exact hnone y hy
      · exact .inr ⟨⟨y, List.mem_cons_of_mem x hy, hty⟩, hlater⟩

end Pool

/-! ### Guarded writes -/

/-- The documents that meet the condition of a guarded write: only the one with the id, and only
with the version. -/
theorem Collection.unchangedSince_holds {c : Collection E} {field : String} {es : Entries}
    (hs : c.schema.Lawful) (hf : c.schema.versionName? = some field) (hes : Versioned field es)
    (hb : SmallVersions field es) {id k : Uuid} {d : Document} {v v' : Int64}
    (hd : (k, d) ∈ es) (hv : d.value? field = some (.int64 v')) (h0 : 0 ≤ v.toInt)
    (hv0 : v.toInt < 2 ^ 53) :
    (c.unchangedSince id (some v)).1.holds d = true ↔ k = id ∧ v' = v := by
  obtain ⟨f, hm, -, hn⟩ := Schema.versionName?_eq_some hf
  have hdot : '.' ∉ field.toList := hn ▸ hs.dotless f hm
  obtain ⟨v₀, hv₀, h0'⟩ := hes.version _ hd
  obtain rfl : v₀ = v' := by
    rw [hv] at hv₀
    cases hv₀
    rfl
  have hb' := hb _ hd _ hv
  rw [unchangedSince_eq hf, Filter.and_pair_holds, Filter.hasId_holds (hes.id _ hd)]
  refine and_congr_right fun _ => ?_
  rw [Filter.eq, Filter.holds, Document.candidates_of_value? hdot hv rfl, Comparison.holds,
    List.any_cons, List.any_nil, Bool.or_false, Value.int64_equalTo,
    Double.same_ofInt (by rw [Double.wholeBound]; omega) (by rw [Double.wholeBound]; omega)]
  exact Int64.toInt_inj

theorem Collection.knownVersion_eq {c : Collection E} {field : String}
    (hf : c.schema.versionName? = some field) {d : Document} {v : Int64}
    (hv : d.value? field = some (.int64 v)) (h0 : 0 ≤ v.toInt) (hb : v.toInt < 2 ^ 53) :
    c.knownVersion d = some v := by
  have hb' : v.toInt.natAbs < Double.wholeBound := by rw [Double.wholeBound]; omega
  rw [knownVersion, hf, Option.bind_some, hv]
  simp only [Option.bind_some, Value.number?, Option.map_some]
  rw [Double.toInt64_ofInt hb', Int64.ofInt_toInt]

/-- **The write takes place**: the document is as it was loaded, afterwards it is as the update
makes it, its version is one higher, and the operation succeeds. -/
structure Commits (c : Collection E) (op : Operation E) (field : String) (id : Uuid) (d : Document)
    (v : Int64) (e : Event (Except Failure (Answer E))) : Prop where
  unchanged : (id, d) ∈ e.before.entries c.name
  written : ∃ f u, e.exchange = ⟨.store (.updateFirst f u c.name), .ok 1⟩ ∧
    (id, u.apply d) ∈ e.after.entries c.name ∧
    (u.apply d).value? field = some (.int64 (v + 1))
  succeeds : op.isGet = false → ∃ a, e.rest = .done (.ok a)

/-- **The write does not take place**: the store stays as it is, and the operation reports a
conflict, unless it is a look-up, which keeps it to itself. -/
structure Conflicts (c : Collection E) (op : Operation E) (id : Uuid)
    (e : Event (Except Failure (Answer E))) : Prop where
  refused : ∃ f u, e.exchange = ⟨.store (.updateFirst f u c.name), .ok 0⟩
  untouched : ∀ name, e.after.entries name = e.before.entries name
  reports : op.isGet = false → e.rest = .done (.error (.concurrentModification id.text))
  keeps : op.isGet = true → ∃ r, r ≠ .error (.concurrentModification id.text) ∧ e.rest = .done r

section

variable {c : Collection E} {op : Operation E} {field : String} {w : Surroundings}
  {p : Pool (Except Failure (Answer E))} {e : Event (Except Failure (Answer E))} {id : Uuid}
  {v : Int64} {u : Update} {name : String} {answer : Except StoreError Nat}
  {next : Except StoreError Nat → Program (Except Failure (Answer E))}

theorem Pool.Step.updateFirst {f : Filter} (hp : p.Sound c field) (h : p.Step w e)
    (he : e.exchange = ⟨.store (.updateFirst f u name), answer⟩) :
    name = c.name ∧ answer = .ok (p.store.updateFirst f u c.name).2 ∧
      e.after = (p.store.updateFirst f u c.name).1 := by
  have hissues := (h.always_next hp.issues).1
  have hreply := h.reply
  rw [he] at hissues hreply
  obtain ⟨rfl, -⟩ := hissues
  have hserve := hreply.replies rfl
  rw [h.before] at hserve
  exact ⟨rfl, congrArg Prod.fst hserve, congrArg Prod.snd hserve⟩

/-- The guarded write of a document that is as it was loaded takes place. -/
theorem commits_of_unchanged (hs : c.schema.Lawful) (hf : c.schema.versionName? = some field)
    (hp : p.Sound c field) (h : p.Step w e) (hb : SmallVersions field (p.store.entries c.name))
    {d : Document} (hd : (id, d) ∈ p.store.entries c.name) (hv : d.value? field = some (.int64 v))
    (he : e.exchange = ⟨.store (.updateFirst (c.unchangedSince id (some v)).1 u name), answer⟩)
    (hr : op.Reports id next) (hgo : e.rest = next answer) : Commits c op field id d v e := by
  obtain ⟨rfl, hanswer, hafter⟩ := h.updateFirst hp he
  obtain ⟨v₀, hv₀, h0⟩ := hp.versioned.version _ hd
  obtain rfl : v₀ = v := by
    rw [hv] at hv₀
    cases hv₀
    rfl
  have hb₀ := hb _ hd _ hv
  have hholds : (c.unchangedSince id (some v₀)).1.holds d = true :=
    (Collection.unchangedSince_holds hs hf hp.versioned hb hd hv h0 hb₀).mpr ⟨rfl, rfl⟩
  have hone : answer = .ok 1 := by
    rw [hanswer, Store.updateFirst_of_mem hd hholds u]
  have hfind := Entries.find?_meets hp.versioned.nodup hd hholds fun x hx hxf => by
    obtain ⟨vx, hvx, -⟩ := hp.versioned.version _ hx
    exact ((Collection.unchangedSince_holds hs hf hp.versioned hb hx hvx h0 hb₀).mp hxf).1
  have hwritten : (id, u.apply d) ∈ e.after.entries c.name := by
    rw [hafter, Store.updateFirst, Store.entries_modify _ _ _ rfl, if_pos rfl]
    exact (Entries.mem_updateFirst hp.versioned.nodup).mpr (.inr ⟨d, hfind, rfl⟩)
  have hconcerns : e.exchange.1.Concerns p.store c.name id := by
    rw [he]
    exact ⟨rfl, d, hfind⟩
  refine ⟨h.before ▸ hd, ⟨_, u, hone ▸ he, hwritten, ?_⟩, fun hop => ?_⟩
  · exact (h.writes hp).next_version hs hf hp.versioned hb hconcerns hd hv hwritten
  · rw [Operation.Reports, if_neg (by rw [hop]; decide)] at hr
    obtain ⟨-, a, ha⟩ := hr
    exact ⟨a, by rw [hgo, hone, ha 1 (by decide)]⟩

/-- The guarded write of a document that is gone or has a later version ends in a conflict. -/
theorem conflicts_of_changed (hs : c.schema.Lawful) (hf : c.schema.versionName? = some field)
    (hp : p.Sound c field) (h : p.Step w e) (hb : SmallVersions field (p.store.entries c.name))
    (h0 : 0 ≤ v.toInt) (hbv : v.toInt < 2 ^ 53)
    (hlater : ∀ d, (id, d) ∈ p.store.entries c.name →
      ∃ v' : Int64, d.value? field = some (.int64 v') ∧ v.toInt < v'.toInt)
    (he : e.exchange = ⟨.store (.updateFirst (c.unchangedSince id (some v)).1 u name), answer⟩)
    (hr : op.Reports id next) (hgo : e.rest = next answer) : Conflicts c op id e := by
  obtain ⟨rfl, hanswer, hafter⟩ := h.updateFirst hp he
  have hnone : ∀ x ∈ p.store.entries c.name,
      (c.unchangedSince id (some v)).1.holds x.2 = false := by
    rintro ⟨k, d⟩ hx
    obtain ⟨vx, hvx, -⟩ := hp.versioned.version _ hx
    by_contra hxf
    obtain ⟨rfl, rfl⟩ := (Collection.unchangedSince_holds hs hf hp.versioned hb hx hvx h0 hbv).mp
      (by simpa using hxf)
    obtain ⟨v', hv', hlt⟩ := hlater d hx
    rw [hvx] at hv'
    cases hv'
    exact absurd hlt (lt_irrefl _)
  obtain ⟨hcount, hsame⟩ := Store.updateFirst_of_none hnone u
  have hzero : answer = .ok 0 := by rw [hanswer, hcount]
  refine ⟨⟨_, u, hzero ▸ he⟩, fun other => ?_, fun hop => ?_, fun hop => ?_⟩
  · rw [hafter, hsame other, h.before]
  · rw [Operation.Reports, if_neg (by rw [hop]; decide)] at hr
    rw [hgo, hzero, hr.1]
  · rw [Operation.Reports, if_pos hop] at hr
    obtain ⟨r, hne, hdone⟩ := hr
    exact ⟨r, hne, by rw [hgo, hzero, hdone]⟩

end

/-- Operations of one collection that begin together. -/
def Pool.ofCalls (c : Collection E) (s : Store) (calls : Nat → Caller × Operation E) :
    Pool (Except Failure (Answer E)) :=
  ⟨s, fun i => ((calls i).2.program c (calls i).1).run⟩

/-- **No update is lost.** An operation that loads a document and then asks for a change has loaded
it by its first call of the store. Its change takes place exactly when the document still exists
and has not been touched since; otherwise it ends in a conflict. -/
theorem commits_iff_untouched {c : Collection E} (hk : c.kind.Lawful) {field : String}
    (hf : c.schema.versionName? = some field) {s : Store} (hs : s.entries c.name = [])
    (calls : Nat → Caller × Operation E) {w : Surroundings}
    {τ₁ τ₂ : List (Event (Except Failure (Answer E)))} {e : Event (Except Failure (Answer E))}
    (h : (Pool.ofCalls c s calls).History w (τ₁ ++ e :: τ₂))
    (hn : NeverReturns c.name (τ₁ ++ e :: τ₂))
    (hb : ∀ x ∈ τ₁ ++ e :: τ₂, SmallVersions field (x.before.entries c.name)) {id : Uuid}
    (hop : (calls e.actor).2.loads? c.kind = some id) (hq : e.exchange.1.isQuiet = false) :
    ∃ σ₁ l σ₂ d v, τ₁ = σ₁ ++ l :: σ₂ ∧
      (l.actor = e.actor ∧ (id, d) ∈ l.before.entries c.name ∧
        d.value? field = some (.int64 v) ∧ ∃ ds, l.exchange =
          ⟨.store (.find (Program.loadQuery c (calls e.actor).1 id) c.name), .ok (d :: ds)⟩) ∧
      (∀ x ∈ σ₁, x.actor = e.actor → ∀ call, x.exchange.1 ≠ .store call) ∧
      ((e.before.Has c.name id ∧ (∀ x ∈ σ₂, ¬ x.Touches c.name id)) ∧
          Commits c (calls e.actor).2 field id d v e ∨
        ¬ (e.before.Has c.name id ∧ ∀ x ∈ σ₂, ¬ x.Touches c.name id) ∧
          Conflicts c (calls e.actor).2 id e) := by
  have hlaw : c.schema.Lawful := hk.schema
  have hstart : (Pool.ofCalls c s calls).Sound c field := by
    refine ⟨fun i => c.issues_program (calls i).1 hk (calls i).2, ?_⟩
    rw [Pool.ofCalls, hs]
    exact ⟨Entries.Keyed.nil, by simp⟩
  -- The operation has loaded the document, and it was stored.
  obtain ⟨σ₁, l, σ₂, d, ds, rfl, hla, hfind, hguards, hfirst⟩ :=
    h.loaded (Collection.loads_program hf hop) rfl hq
  rw [List.append_assoc, List.cons_append] at h hn hb
  have hl := h.step
  obtain ⟨hσ₁, hrest⟩ := Pool.history_append.mp h
  obtain ⟨-, hlater⟩ := Pool.history_cons.mp hrest
  have hsound := hstart.after hlaw hf hσ₁ fun x hx => hb x (List.mem_append_left _ hx)
  have hreply := hl.reply
  rw [hfind] at hreply
  obtain ⟨k, hkd, hvis⟩ := mem_of_find hreply List.mem_cons_self
  rw [hl.before] at hkd
  have hd := Collection.stored_of_visible hsound.versioned.toKeyed hkd hvis
  obtain ⟨v, hv, h0⟩ := hsound.versioned.version _ hd
  have hbl := hb l (List.mem_append_right _ List.mem_cons_self)
  have hbv : v.toInt < 2 ^ 53 := hbl _ (hl.before ▸ hd) v hv
  refine ⟨σ₁, l, σ₂, d, v, rfl, ⟨hla, hl.before ▸ hd, hv, ds, hfind⟩, hfirst, ?_⟩
  -- It writes under the condition that the version is still the same.
  have hnext := hsound.next hlaw hf hl hbl
  have hguards' := hguards v (Collection.knownVersion_eq hf hv h0 hbv)
  rw [← Pool.programs_next_self ((Pool.ofCalls c s calls).after σ₁) l, hla] at hguards'
  obtain ⟨_, u, name, answer, next, he, rfl, hreports, hgo⟩ := hlater.guarded hguards' rfl hq
  have hstep := hlater.step
  obtain ⟨hσ₂, -⟩ := Pool.history_append.mp hlater
  have hbσ₂ : ∀ x ∈ σ₂, SmallVersions field (x.before.entries c.name) := fun x hx =>
    hb x (List.mem_append_right _ (List.mem_cons_of_mem l (List.mem_append_left _ hx)))
  have hnσ₂ : NeverReturns c.name σ₂ :=
    (List.pairwise_append.mp (List.pairwise_cons.mp (List.pairwise_append.mp hn).2.1).2).1
  have hmid := hnext.after hlaw hf hσ₂ hbσ₂
  have hbe := hb e (List.mem_append_right _
    (List.mem_cons_of_mem l (List.mem_append_right _ List.mem_cons_self)))
  rw [hstep.before] at hbe
  have hloaded : (id, d) ∈ (((Pool.ofCalls c s calls).after σ₁).next l).store.entries c.name := by
    change (id, d) ∈ l.after.entries c.name
    rw [hreply.eq_of_isQuiet rfl, hl.before]
    exact hd
  -- Either nobody has touched the document since, or its version has become another.
  rcases Pool.untouched_or_later hlaw hf hnext hσ₂ hbσ₂ hnσ₂ hloaded hv with
    ⟨hnone, hsame⟩ | ⟨⟨x, hx, hxt⟩, hchanged⟩
  · exact .inl ⟨⟨hstep.before ▸ Store.has_iff.mpr ⟨d, hsame⟩, hnone⟩,
      commits_of_unchanged hlaw hf hmid hstep hbe hsame hv he hreports hgo⟩
  · exact .inr ⟨fun hc => hc.2 x hx hxt,
      conflicts_of_changed hlaw hf hmid hstep hbe h0 hbv hchanged he hreports hgo⟩

/-! ### Two updates of one book -/

namespace Directory

/-- A collection of phone books in which everything is allowed. -/
def openBooks : Collection Book := ⟨Book.kind, .unrestricted, { validateUniqueNames := false }⟩

def firstBook : Uuid := .ofByte 1

/-- A book is added, and two others rename it. -/
def renameTwice (i : Nat) : Caller × Operation Book :=
  ({}, if i = 0 then .add { id := firstBook, name := "Work" }
    else .update { id := firstBook, name := if i = 1 then "Office" else "Home" } none)

/-- The second one loads the book first, and writes it last. -/
def renameTurns : List (Event (Except Failure (Answer Book))) :=
  (Pool.ofCalls openBooks .empty renameTwice).play [0, 0, 0, 0, 0, 1, 1, 1, 2, 2, 2, 2, 2, 1, 1]

/-- The number of documents that a turn has updated. -/
def updated? (e : Event (Except Failure (Answer Book))) : Option Nat :=
  match e.exchange with
  | ⟨.store (.updateFirst _ _ _), .ok n⟩ => some n
  | _ => none

/-- The second update takes place, and the first one ends in a conflict. -/
theorem renameTwice_conflicts :
    (∃ e ∈ renameTurns, e.actor = 2 ∧
        ∃ d v, Commits openBooks (renameTwice e.actor).2 "version" firstBook d v e) ∧
      ∃ e ∈ renameTurns, e.actor = 1 ∧
        Conflicts openBooks (renameTwice e.actor).2 firstBook e := by
  have hhist : (Pool.ofCalls openBooks .empty renameTwice).History .any renameTurns :=
    Pool.history_play trivial _ _
  have hkept : NeverReturns openBooks.name renameTurns :=
    neverReturns_of_kept (by decide +kernel)
  have hsmall : ∀ x ∈ renameTurns, SmallVersions "version" (x.before.entries openBooks.name) := by
    decide +kernel
  have hends : ∀ e ∈ renameTurns,
      (renameTwice e.actor).2.loads? openBooks.kind = some firstBook →
      e.exchange.1.isQuiet = false →
      (∃ d v, Commits openBooks (renameTwice e.actor).2 "version" firstBook d v e) ∨
        Conflicts openBooks (renameTwice e.actor).2 firstBook e := by
    intro e he hop hq
    obtain ⟨τ₁, τ₂, hsplit⟩ := List.append_of_mem he
    rw [hsplit] at hhist hkept hsmall
    obtain ⟨_, _, _, d, v, -, -, -, ⟨-, h⟩ | ⟨-, h⟩⟩ :=
      commits_iff_untouched Book.lawful rfl rfl renameTwice hhist hkept hsmall hop hq
    · exact .inl ⟨d, v, h⟩
    · exact .inr h
  constructor
  · obtain ⟨e, he, ha, hop, hq, hone⟩ : ∃ e ∈ renameTurns, e.actor = 2 ∧
        (renameTwice e.actor).2.loads? openBooks.kind = some firstBook ∧
        e.exchange.1.isQuiet = false ∧ updated? e = some 1 := by decide +kernel
    refine ⟨e, he, ha, (hends e he hop hq).resolve_right fun hc => ?_⟩
    obtain ⟨f, u, hex⟩ := hc.refused
    rw [updated?, hex] at hone
    cases hone
  · obtain ⟨e, he, ha, hop, hq, hzero⟩ : ∃ e ∈ renameTurns, e.actor = 1 ∧
        (renameTwice e.actor).2.loads? openBooks.kind = some firstBook ∧
        e.exchange.1.isQuiet = false ∧ updated? e = some 0 := by decide +kernel
    refine ⟨e, he, ha, (hends e he hop hq).resolve_left fun ⟨d, v, hc⟩ => ?_⟩
    obtain ⟨f, u, hex, -⟩ := hc.written
    rw [updated?, hex] at hzero
    cases hzero

end Directory

end Registrar
