import Registrar.Proofs.Engine.LostUpdates
import Registrar.Proofs.Engine.Shared

/-!
# Documents that come back

An operation that loads a document and writes it later knows it by its id and its version. When the
document has been deleted meanwhile, another one may have been inserted under the same id, and its
versions begin at zero again. So the write means the other document as soon as this one has been
written as often as the loaded one. Otherwise nothing is changed and the operation reports a
conflict.

* `Replaced`: one document was deleted and another one inserted.
* `LooksUnchanged`: what is stored has the version of what was loaded.
* `Crosses`, `Refuses`: the two ways in which the write ends.
* `crosses_iff_sameVersion`: which of them it is.
-/

namespace Registrar

variable {E α : Type}

/-! ### Documents that come and go -/

/-- The turn deletes the document with the id. -/
def Event.Deletes (e : Event α) (name : String) (id : Uuid) : Prop :=
  e.before.Has name id ∧ ¬ e.after.Has name id

/-- The turn inserts a document with the id. -/
def Event.Inserts (e : Event α) (name : String) (id : Uuid) : Prop :=
  ¬ e.before.Has name id ∧ e.after.Has name id

/-- **In the course of turns another document has come**: one was deleted, and one was inserted
later. -/
def Replaced (name : String) (id : Uuid) (τ : List (Event α)) : Prop :=
  ∃ x y, [x, y].Sublist τ ∧ x.Deletes name id ∧ y.Inserts name id

theorem Pool.History.replaced {c : Collection E} {w : Surroundings} {p : Pool α}
    {τ : List (Event α)} {id : Uuid} (h : p.History w τ) (hgone : ∃ x ∈ τ, x.Deletes c.name id)
    (hback : (p.after τ).store.Has c.name id) : Replaced c.name id τ := by
  obtain ⟨x, hx, hdel⟩ := hgone
  obtain ⟨σ, υ, rfl⟩ := List.append_of_mem hx
  obtain ⟨-, hrest⟩ := history_append.mp h
  obtain ⟨-, hυ⟩ := history_cons.mp hrest
  have hins : ∃ y ∈ υ, y.Inserts c.name id := by
    by_contra hnone
    push Not at hnone
    have haway := hυ.stays_away (c := c) hdel.2 hnone
    rw [after, List.foldl_append, List.foldl_cons] at hback
    exact haway hback
  obtain ⟨y, hy, hins⟩ := hins
  refine ⟨x, y, ?_, hdel, hins⟩
  exact ((List.singleton_sublist.mpr hy).cons_cons x).trans (List.sublist_append_right σ _)

/-! ### What the version tells -/

namespace Collection

variable {c : Collection E} {field : String}

/-- **The stored document has the version of the one that was loaded.** -/
def LooksUnchanged (c : Collection E) (s : Store) (id : Uuid) (d : Document) : Prop :=
  ∃ d', (id, d') ∈ s.entries c.name ∧ c.knownVersion d' = c.knownVersion d

theorem knownVersion_of_counted (hf : c.schema.versionName? = some field) {d : Document}
    {v : Int64} (hv : d.value? field = some (.int64 v)) (h0 : 0 ≤ v.toInt)
    (hb : v.toInt ≤ lastVersion) :
    c.knownVersion d = some (Int64.ofInt (min v.toInt (2 ^ 53))) := by
  rw [knownVersion, hf, Option.bind_some, hv]
  simp only [Option.bind_some, Value.number?, Option.map_some]
  rw [toInt64_ofInt_of_le h0 hb]

/-- Versions are known apart as long as they are counted up. -/
theorem knownVersion_eq_iff (hf : c.schema.versionName? = some field) {d d' : Document}
    {v v' : Int64} (hv : d.value? field = some (.int64 v)) (h0 : 0 ≤ v.toInt)
    (hb : v.toInt ≤ lastVersion) (hv' : d'.value? field = some (.int64 v')) (h0' : 0 ≤ v'.toInt)
    (hb' : v'.toInt ≤ lastVersion) :
    c.knownVersion d' = c.knownVersion d ↔ min v'.toInt (2 ^ 53) = min v.toInt (2 ^ 53) := by
  rw [knownVersion_of_counted hf hv h0 hb, knownVersion_of_counted hf hv' h0' hb',
    Option.some_inj, ← Int64.toInt_inj, Int64.toInt_ofInt_of_le (by omega) (by omega),
    Int64.toInt_ofInt_of_le (by omega) (by omega)]

/-- **The documents that a guarded write means**: those with the id that look unchanged. -/
theorem unchangedSince_holds_iff (hs : c.schema.Lawful) (hf : c.schema.versionName? = some field)
    {es es' : Entries} (hes : Counted field es) (hes' : Counted field es') {id k : Uuid}
    {d d' : Document} (hd : (id, d) ∈ es) (hd' : (k, d') ∈ es') :
    (c.unchangedSince id (c.knownVersion d)).1.holds d' = true ↔
      k = id ∧ c.knownVersion d' = c.knownVersion d := by
  obtain ⟨f, hm, -, hn⟩ := Schema.versionName?_eq_some hf
  have hdot : '.' ∉ field.toList := hn ▸ hs.dotless f hm
  obtain ⟨v, hv, h0, hb⟩ := hes.version _ hd
  obtain ⟨v', hv', h0', hb'⟩ := hes'.version _ hd'
  rw [knownVersion_eq_iff hf hv h0 hb hv' h0' hb', knownVersion_of_counted hf hv h0 hb,
    unchangedSince_eq hf, Filter.and_pair_holds, Filter.hasId_holds (hes'.id _ hd')]
  refine and_congr_right fun _ => ?_
  have hknown : (Int64.ofInt (min v.toInt (2 ^ 53))).toInt = min v.toInt (2 ^ 53) :=
    Int64.toInt_ofInt_of_le (by omega) (by omega)
  rw [Filter.eq, Filter.holds, Document.candidates_of_value? hdot hv' rfl, Comparison.holds,
    List.any_cons, List.any_nil, Bool.or_false, Value.int64_equalTo, hknown,
    same_ofInt_of_le h0' hb' (by omega) (by omega), min_assoc, min_self]

end Collection

/-! ### How the write ends -/

/-- **The write crosses over to another document**: the loaded one was deleted, another one was
inserted, and that one is written. -/
structure Crosses (c : Collection E) (op : Operation E) (id : Uuid)
    (σ : List (Event (Except Failure α))) (e : Event (Except Failure α)) : Prop where
  replaced : Replaced c.name id σ
  written : ∃ d f u, (id, d) ∈ e.before.entries c.name ∧
    e.exchange = ⟨.store (.updateFirst f u c.name), .ok 1⟩ ∧
    (id, u.apply d) ∈ e.after.entries c.name
  succeeds : op.isGet = false → ∃ a, e.rest = .done (.ok a)

/-- **The write is refused**: the store stays as it is, and the operation reports a conflict. -/
structure Refuses (c : Collection E) (op : Operation E) (id : Uuid)
    (e : Event (Except Failure α)) : Prop where
  refused : ∃ f u, e.exchange = ⟨.store (.updateFirst f u c.name), .ok 0⟩
  untouched : ∀ name, e.after.entries name = e.before.entries name
  reports : op.isGet = false → e.rest = .done (.error (.concurrentModification id.text))

section

variable {c : Collection E} {op : Operation E} {field : String} {w : Surroundings}
  {p : Pool (Except Failure α)} {e : Event (Except Failure α)} {id : Uuid} {d : Document}
  {u : Update} {answer : Except StoreError Nat}
  {next : Except StoreError Nat → Program (Except Failure α)} {es : Entries}

theorem written_of_looksUnchanged (hs : c.schema.Lawful) (hf : c.schema.versionName? = some field)
    (hes : Counted field es) (hd : (id, d) ∈ es) (hc : Counted field (p.store.entries c.name))
    (h : p.Step w e) (hlooks : c.LooksUnchanged p.store id d)
    (he : e.exchange =
      ⟨.store (.updateFirst (c.unchangedSince id (c.knownVersion d)).1 u c.name), answer⟩) :
    answer = .ok 1 ∧ ∃ d', (id, d') ∈ e.before.entries c.name ∧
      (id, u.apply d') ∈ e.after.entries c.name := by
  have hreply := h.reply
  rw [he, h.before] at hreply
  have hserve := hreply.replies rfl
  obtain ⟨d', hd', hsame⟩ := hlooks
  have hholds := (Collection.unchangedSince_holds_iff hs hf hes hc hd hd').mpr ⟨rfl, hsame⟩
  refine ⟨?_, d', h.before ▸ hd', ?_⟩
  · calc answer = .ok (p.store.updateFirst _ u c.name).2 := congrArg Prod.fst hserve
      _ = .ok 1 := by rw [Store.updateFirst_of_mem hd' hholds u]
  · have hafter : e.after = (p.store.updateFirst _ u c.name).1 := congrArg Prod.snd hserve
    have hfind := Entries.find?_meets hc.nodup hd' hholds fun x hx hxf =>
      ((Collection.unchangedSince_holds_iff hs hf hes hc hd hx).mp hxf).1
    rw [hafter, Store.updateFirst, Store.entries_modify _ _ _ rfl, if_pos rfl]
    exact (Entries.mem_updateFirst hc.nodup).mpr (.inr ⟨d', hfind, rfl⟩)

theorem refuses_of_not_looksUnchanged (hs : c.schema.Lawful)
    (hf : c.schema.versionName? = some field) (hes : Counted field es) (hd : (id, d) ∈ es)
    (hc : Counted field (p.store.entries c.name)) (h : p.Step w e)
    (hlooks : ¬ c.LooksUnchanged p.store id d)
    (he : e.exchange =
      ⟨.store (.updateFirst (c.unchangedSince id (c.knownVersion d)).1 u c.name), answer⟩)
    (hr : op.Reports id next) (hgo : e.rest = next answer) : Refuses c op id e := by
  have hreply := h.reply
  rw [he, h.before] at hreply
  have hserve := hreply.replies rfl
  have hnone : ∀ x ∈ p.store.entries c.name,
      (c.unchangedSince id (c.knownVersion d)).1.holds x.2 = false := by
    rintro ⟨k, d'⟩ hx
    by_contra hxf
    rw [Bool.not_eq_false] at hxf
    obtain ⟨rfl, hsame⟩ := (Collection.unchangedSince_holds_iff hs hf hes hc hd hx).mp hxf
    exact hlooks ⟨d', hx, hsame⟩
  obtain ⟨hcount, hsame⟩ := Store.updateFirst_of_none hnone u
  have hzero : answer = .ok 0 := by
    calc answer = .ok (p.store.updateFirst _ u c.name).2 := congrArg Prod.fst hserve
      _ = .ok 0 := by rw [hcount]
  have hafter : e.after = (p.store.updateFirst _ u c.name).1 := congrArg Prod.snd hserve
  refine ⟨⟨_, u, hzero ▸ he⟩, fun name => ?_, fun hop => ?_⟩
  · rw [hafter, hsame name, h.before]
  · rw [Operation.Reports, if_neg (by rw [hop]; decide)] at hr
    rw [hgo, hzero, hr.1]

end

/-- **When writes cross over.** An operation that loads a document and then asks for a change has
loaded it by its first call of the store. If the document has been deleted since, then the change
is made to another document exactly when this one has the same version; otherwise it is refused. -/
theorem crosses_iff_sameVersion {asked : Nat → Asked} (hk : Asked.Lawful asked) {w : Surroundings}
    {τ₁ τ₂ : List (Event (Except Failure (Answer Unit)))} {e : Event (Except Failure (Answer Unit))}
    (h : (Pool.ofAsked .empty asked).History w (τ₁ ++ e :: τ₂)) {c : Collection E}
    {caller : Caller} {op : Operation E} (hasks : asked e.actor = ⟨c, caller, op⟩) {field : String}
    (hf : Asked.CountsIn asked c.name field) {id : Uuid} (hop : op.loads? c.kind = some id)
    (hq : e.exchange.1.isQuiet = false) :
    ∃ σ₁ l σ₂ d, τ₁ = σ₁ ++ l :: σ₂ ∧
      (l.actor = e.actor ∧ (id, d) ∈ l.before.entries c.name ∧ ∃ ds, l.exchange =
        ⟨.store (.find (Program.loadQuery c caller id) c.name), .ok (d :: ds)⟩) ∧
      (∀ x ∈ σ₁, x.actor = e.actor → ∀ call, x.exchange.1 ≠ .store call) ∧
      ((∃ x ∈ σ₂, x.Deletes c.name id) →
        c.LooksUnchanged e.before id d ∧ Crosses c op id σ₂ e ∨
          ¬ c.LooksUnchanged e.before id d ∧ Refuses c op id e) := by
  have hkind := hk e.actor
  have hfield := hf e.actor
  have hshape : ((Pool.ofAsked .empty asked).programs e.actor).Loads c caller id fun d p =>
      ∀ v, c.knownVersion d = some v → p.Guards c id (some v) (op.Reports id) := by
    change (asked e.actor).program.Loads c caller id _
    rw [hasks] at hfield ⊢
    exact loads_asked (a := ⟨c, caller, op⟩) (hfield rfl) hop
  rw [hasks] at hkind hfield
  have hlaw : c.schema.Lawful := hkind.schema
  have hfc : c.schema.versionName? = some field := hfield rfl
  -- The operation has loaded the document, and it was stored.
  obtain ⟨σ₁, l, σ₂, d, ds, rfl, hla, hfind, hguards, hfirst⟩ := h.loaded hshape rfl hq
  have hissues := Pool.issues_ofAsked hk h e (List.mem_append_right _ List.mem_cons_self)
  have hbefore := Pool.counted_after hk hf (Pool.history_append.mp h).1 (.nil field)
  rw [Pool.after, List.foldl_append, List.foldl_cons] at hbefore
  rw [List.append_assoc, List.cons_append] at h
  have hl := h.step
  obtain ⟨hσ₁, hrest⟩ := Pool.history_append.mp h
  obtain ⟨-, hlater⟩ := Pool.history_cons.mp hrest
  have hcounted := Pool.counted_after hk hf hσ₁ (.nil field)
  have hreply := hl.reply
  rw [hfind] at hreply
  obtain ⟨k, hkd, hvis⟩ := mem_of_find hreply List.mem_cons_self
  rw [hl.before] at hkd
  have hd := Collection.stored_of_visible hcounted.toKeyed hkd hvis
  refine ⟨σ₁, l, σ₂, d, rfl, ⟨hla, hl.before ▸ hd, ds, hfind⟩, hfirst, fun hgone => ?_⟩
  -- It writes under the condition that the version is still the same.
  obtain ⟨v, hv, h0, hb⟩ := hcounted.version _ hd
  have hguards' := hguards _ (Collection.knownVersion_of_counted hfc hv h0 hb)
  rw [← Collection.knownVersion_of_counted hfc hv h0 hb,
    ← Pool.programs_next_self ((Pool.ofAsked .empty asked).after σ₁) l, hla] at hguards'
  obtain ⟨_, u, name, answer, next, he, rfl, hreports, hgo⟩ := hlater.guarded hguards' rfl hq
  rw [hasks, he] at hissues
  obtain rfl : name = c.name := hissues.1
  have hstep := hlater.step
  obtain ⟨hσ₂, -⟩ := Pool.history_append.mp hlater
  by_cases hlooks : c.LooksUnchanged e.before id d
  · rw [hstep.before] at hlooks
    obtain ⟨rfl, d', hd', hwritten⟩ :=
      written_of_looksUnchanged hlaw hfc hcounted hd hbefore hstep hlooks he
    have hback := Store.has_iff.mpr ⟨d', hd'⟩
    rw [hstep.before] at hback
    refine .inl ⟨hstep.before ▸ hlooks, hσ₂.replaced hgone hback, ⟨d', _, u, hd', he, hwritten⟩,
      fun hget => ?_⟩
    rw [Operation.Reports, if_neg (by rw [hget]; decide)] at hreports
    obtain ⟨-, a, ha⟩ := hreports
    exact ⟨a, by rw [hgo, ha 1 (by decide)]⟩
  · refine .inr ⟨hlooks, ?_⟩
    rw [hstep.before] at hlooks
    exact refuses_of_not_looksUnchanged hlaw hfc hcounted hd hbefore hstep hlooks he hreports hgo

/-! ### A book that comes back -/

namespace Directory

/-- A book is added, renamed and deleted, and another one is added under its id. -/
def renameReturned (i : Nat) : Asked :=
  ⟨openBooks, {}, match i with
    | 0 => .add { id := firstBook, name := "Work" }
    | 1 => .update { id := firstBook, name := "Office" } none
    | 2 => .delete firstBook
    | _ => .add { id := firstBook, name := "Home" }⟩

/-- The book is loaded for its new name first; it is deleted, the other one is added, and only then
the name is written. -/
def returnedTurns : List (Event (Except Failure (Answer Unit))) :=
  (Pool.ofAsked .empty renameReturned).play
    [0, 0, 0, 0, 0, 1, 1, 2, 2, 2, 2, 3, 3, 3, 3, 3, 1, 1, 1]

/-- Whether a turn asks for documents. -/
def seeks (e : Event (Except Failure (Answer Unit))) : Bool :=
  match e.exchange.1 with
  | .store (.find _ _) => true
  | _ => false

/-- Whether a turn has updated a document. -/
def hasUpdated (e : Event (Except Failure (Answer Unit))) : Bool :=
  match e.exchange with
  | ⟨.store (.updateFirst _ _ _), .ok n⟩ => n = 1
  | _ => false

/-- The other book gets the name that was meant for the first one. -/
theorem renameReturned_crosses :
    ∃ τ₁ e τ₂ σ₁ l σ₂ d, returnedTurns = τ₁ ++ e :: τ₂ ∧ τ₁ = σ₁ ++ l :: σ₂ ∧ e.actor = 1 ∧
      l.actor = 1 ∧ (firstBook, d) ∈ l.before.entries openBooks.name ∧
      Crosses openBooks (renameReturned 1).operation firstBook σ₂ e := by
  have hhist : (Pool.ofAsked .empty renameReturned).History .any returnedTurns :=
    Pool.history_play trivial _ _
  -- The book is deleted after it was loaded and before it is written.
  obtain ⟨e, he, ha, hq, hone⟩ : ∃ e ∈ returnedTurns, e.actor = 1 ∧
      e.exchange.1.isQuiet = false ∧ hasUpdated e = true := by decide +kernel
  obtain ⟨x, hx, hxa, hxq, hxb, hxc⟩ : ∃ x ∈ returnedTurns, x.actor = 2 ∧
      x.exchange.1.isQuiet = false ∧ firstBook ∈ (x.before.entries openBooks.name).map Prod.fst ∧
      firstBook ∉ (x.after.entries openBooks.name).map Prod.fst := by decide +kernel
  have hdeleted : x.Deletes openBooks.name firstBook := ⟨hxb, hxc⟩
  have horder : returnedTurns.Pairwise fun a b =>
      ¬ (a.actor = 2 ∧ a.exchange.1.isQuiet = false ∧ b.actor = 1 ∧ seeks b = true) ∧
        ¬ (a.actor = 1 ∧ hasUpdated a = true ∧ b.actor = 2) := by decide +kernel
  obtain ⟨τ₁, τ₂, hsplit⟩ := List.append_of_mem he
  rw [hsplit] at hhist hx horder
  have hlawful : Asked.Lawful renameReturned := fun _ => Book.lawful
  have hcounts : Asked.CountsIn renameReturned openBooks.name "version" := fun _ _ => rfl
  have hasks : renameReturned e.actor = ⟨openBooks, {}, (renameReturned 1).operation⟩ := by
    rw [ha]
    rfl
  obtain ⟨σ₁, l, σ₂, d, rfl, ⟨hla, hld, ds, hfind⟩, -, hends⟩ :=
    crosses_iff_sameVersion hlawful hhist hasks hcounts rfl hq
  obtain ⟨hbefore, hafter, -⟩ := List.pairwise_append.mp horder
  have hdel : ∃ x ∈ σ₂, x.Deletes openBooks.name firstBook := by
    refine ⟨x, ?_, hdeleted⟩
    have hseeks : seeks l = true := by rw [seeks, hfind]
    have hne : ∀ y ∈ e :: τ₂, x ≠ y := by
      rintro y hy rfl
      rcases List.mem_cons.mp hy with rfl | hy
      · rw [ha] at hxa
        cases hxa
      · exact ((List.pairwise_cons.mp hafter).1 x hy).2 ⟨ha, hone, hxa⟩
    have hxτ₁ : x ∈ σ₁ ++ l :: σ₂ :=
      (List.mem_append.mp hx).resolve_right fun h => hne x h rfl
    rcases List.mem_append.mp hxτ₁ with hσ | hσ
    · have hxl := (List.pairwise_append.mp hbefore).2.2 x hσ l List.mem_cons_self
      exact absurd ⟨hxa, hxq, hla.trans ha, hseeks⟩ hxl.1
    · refine (List.mem_cons.mp hσ).resolve_left ?_
      rintro rfl
      rw [hla, ha] at hxa
      cases hxa
  have hcrosses := (hends hdel).resolve_right fun h => by
    obtain ⟨f, u, hzero⟩ := h.2.refused
    rw [hasUpdated, hzero] at hone
    cases hone
  exact ⟨_, e, τ₂, σ₁, l, σ₂, d, hsplit, rfl, ha, hla.trans ha, hld, hcrosses.2⟩

end Directory

end Registrar
