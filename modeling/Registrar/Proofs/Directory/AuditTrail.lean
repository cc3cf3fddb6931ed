import Registrar.Proofs.Directory.Steps
import Registrar.Proofs.Engine.Failures
import Registrar.Proofs.Engine.LostUpdates
import Registrar.Proofs.Engine.Shared
import Registrar.Proofs.Engine.Signatures
import Registrar.Proofs.Program.CarefulTurns
import Mathlib.Data.List.Induction

/-!
# The audit trail

What the version and the signature in a document tell of its past. Operations of any collections
begin on an empty store, and their turns come in any order. Then every document that is there was
added by one of them. The version counts the turns that have written the document since, each by
another operation, and the signature is that of the last caller who was not merely looking. And an
operation that fails, or tells of no change, has left all documents as they were.

* `writesTo`: the turns that write a document.
* `Trail`: what a document tells of the turns since it was added.
* `Trail.next`: one more write.
* `unchanged_of_idle`: an operation that tells of no change has made none.
* `audit_trail`: **every document has a trail**.
-/

namespace Registrar

/-! ### The turns that write a document -/

instance (s : Store) (name : String) (id : Uuid) : (call : StoreCall) →
    Decidable (call.Concerns s name id)
  | .insert k _ n =>
    inferInstanceAs (Decidable (n = name ∧ k = id ∧ (s.entries name).hasKey id = false))
  | .updateFirst f _ n | .deleteFirst f n =>
    decidable_of_iff (n = name ∧ ((s.entries name).find? (Entries.meets f)).map Prod.fst = some id)
      (and_congr_right fun _ => by simp [Option.map_eq_some_iff])
  | .updateAll f _ n | .deleteAll f n =>
    decidable_of_iff (n = name ∧ ∃ e ∈ s.entries name, e.1 = id ∧ f.holds e.2 = true)
      (and_congr_right fun _ => by simp)
  | .dropCollection n => inferInstanceAs (Decidable (n = name))
  | .find _ _ | .count _ _ | .createCollection _ | .listCollections => .isFalse not_false

instance (s : Store) (name : String) (id : Uuid) : (r : Request) →
    Decidable (r.Concerns s name id)
  | .store call => inferInstanceAs (Decidable (call.Concerns s name id))
  | .isCancelled | .newId | .now => .isFalse not_false

instance {α : Type} (e : Event α) (name : String) (id : Uuid) : Decidable (e.Touches name id) :=
  inferInstanceAs (Decidable (e.exchange.1.Concerns e.before name id))

variable {α : Type} {name : String} {id : Uuid} {τ υ : List (Event α)} {e : Event α}

/-- **The turns that write a document**, in their order. -/
def writesTo (name : String) (id : Uuid) (τ : List (Event α)) : List (Event α) :=
  τ.filter fun e => e.Touches name id

theorem writesTo_concat_of_touches (h : e.Touches name id) :
    writesTo name id (τ ++ [e]) = writesTo name id τ ++ [e] := by
  simp [writesTo, h]

theorem writesTo_concat_of_not_touches (h : ¬ e.Touches name id) :
    writesTo name id (τ ++ [e]) = writesTo name id τ := by
  simp [writesTo, h]

/-! ### Trails -/

/-- The last of several turns that is not a turn of somebody who only looks. -/
def lastSigner (asked : Nat → Asked) (τ : List (Event α)) : Option (Event α) :=
  (τ.filter fun e => !(asked e.actor).operation.isGet).getLast?

theorem lastSigner_concat {asked : Nat → Asked} (h : (asked e.actor).operation.isGet = false) :
    lastSigner asked (τ ++ [e]) = some e := by
  simp [lastSigner, h]

theorem lastSigner_concat_of_get {asked : Nat → Asked}
    (h : (asked e.actor).operation.isGet = true) :
    lastSigner asked (τ ++ [e]) = lastSigner asked τ := by
  simp [lastSigner, h]

/-- **What a document tells of its past**: the turn by which it was added, and the turns since. -/
structure Trail (asked : Nat → Asked) (name : String) (id : Uuid) (a : Event α)
    (υ : List (Event α)) (d : Document) : Prop where
  /-- It was added. -/
  added : a.Touches name id ∧ (asked a.actor).operation.isAdd = true
  /-- Since then it was written by operations that sign, and by look-ups. -/
  written : ∀ e ∈ writesTo name id υ,
    (asked e.actor).operation.signs = true ∨ (asked e.actor).operation.isGet = true
  /-- Each of them wrote it once. -/
  once : ((a :: writesTo name id υ).map Event.actor).Nodup
  /-- The version is the number of these writes. -/
  version : d.value? "version" = some (.int64 (Int64.ofNat (writesTo name id υ).length))
  /-- The signature is that of the caller of the last operation that signs. -/
  signature : ∃ e, lastSigner asked (a :: writesTo name id υ) = some e ∧
    d.value? "last_update_by" = some (.string (asked e.actor).caller.stamp)

namespace Trail

variable {asked : Nat → Asked} {a : Event α} {d d' : Document}

theorem skip (h : Trail asked name id a υ d) (he : ¬ e.Touches name id) :
    Trail asked name id a (υ ++ [e]) d := by
  have hwrites : writesTo name id (υ ++ [e]) = writesTo name id υ :=
    writesTo_concat_of_not_touches he
  constructor
  · exact h.added
  · exact hwrites ▸ h.written
  · exact hwrites ▸ h.once
  · exact hwrites ▸ h.version
  · exact hwrites ▸ h.signature

theorem nextVersion_ofNat {n : Nat} (hn : n < 2 ^ 53) :
    nextVersion (Int64.ofNat n) = Int64.ofNat (n + 1) := by
  have hn' : (Int64.ofNat n).toInt = n := Int64.toInt_ofNat_of_lt (by omega)
  rw [nextVersion, hn', if_pos (by omega), Int64.ofNat_add]
  rfl

/-- **One more write.** It counts, and it leaves the signature of its caller if it signs. -/
theorem next (h : Trail asked name id a υ d) (he : e.Touches name id)
    (hfew : (writesTo name id υ).length < 2 ^ 53)
    (hactor : e.actor ∉ (a :: writesTo name id υ).map Event.actor)
    (hversion : d'.value? "version" =
      some (.int64 (nextVersion (Int64.ofNat (writesTo name id υ).length))))
    (hsigned : ((asked e.actor).operation.signs = true ∧ (asked e.actor).operation.isGet = false ∧
        d'.value? "last_update_by" = some (.string (asked e.actor).caller.stamp)) ∨
      ((asked e.actor).operation.isGet = true ∧
        d'.value? "last_update_by" = d.value? "last_update_by")) :
    Trail asked name id a (υ ++ [e]) d' := by
  have hwrites : writesTo name id (υ ++ [e]) = writesTo name id υ ++ [e] :=
    writesTo_concat_of_touches he
  constructor
  · exact h.added
  · rw [hwrites]
    intro x hx
    rcases List.mem_append.mp hx with hx | hx
    · exact h.written x hx
    · rw [List.mem_singleton.mp hx]
      exact hsigned.imp And.left And.left
  · rw [hwrites, ← List.cons_append, List.map_append, List.map_singleton]
    refine List.nodup_append.mpr ⟨h.once, List.nodup_singleton _, fun i hi j hj => ?_⟩
    rintro rfl
    exact hactor (List.mem_singleton.mp hj ▸ hi)
  · rw [hversion, nextVersion_ofNat hfew, hwrites, List.length_append, List.length_singleton]
  · rw [hwrites, ← List.cons_append]
    rcases hsigned with ⟨-, hget, hstamp⟩ | ⟨hget, hsame⟩
    · exact ⟨e, lastSigner_concat hget, hstamp⟩
    · obtain ⟨x, hx, hstamp⟩ := h.signature
      exact ⟨x, (lastSigner_concat_of_get hget).trans hx, hsame.trans hstamp⟩

end Trail

/-! ### What is asked -/

/-- The operation looks up the entities that an entity refers to. -/
def Operation.isLookup {E : Type} : Operation E → Bool
  | .get _ lookup => lookup
  | _ => false

namespace Collection

variable {E : Type} {c : Collection E} {caller : Caller} {op : Operation E} {r : Request}
  {s : Store}

theorem Makes.not_concerns_of_ne (hm : c.Makes caller op r) (h : name ≠ c.name) :
    ¬ r.Concerns s name id := by
  cases hm with
  | reads quiet => exact Request.not_concerns_of_isQuiet quiet
  | _ => exact fun hc => h hc.1.symm

theorem Makes.not_mem_of_isAdd (hm : c.Makes caller op r) (hop : op.isAdd = true)
    (hc : r.Concerns s c.name id) : id ∉ (s.entries c.name).map Prod.fst := by
  cases hm with
  | reads quiet => exact absurd hc (Request.not_concerns_of_isQuiet quiet)
  | inserts k x now =>
    obtain ⟨-, rfl, hfree⟩ := hc
    exact Entries.hasKey_eq_false_iff.mp hfree
  | signs hsigns =>
    rw [Operation.isAdd_of_signs hsigns] at hop
    cases hop
  | signsAll hsigns =>
    rw [Operation.isAdd_of_signs hsigns] at hop
    cases hop
  | _ => cases hop

theorem Makes.isQuiet_of_isGet (hm : c.Makes caller op r) (hget : op.isGet = true)
    (hlookup : op.isLookup = false) : r.isQuiet = true := by
  cases hm with
  | reads quiet => exact quiet
  | signs hsigns =>
    rw [Operation.isGet_of_signs hsigns] at hget
    cases hget
  | signsAll hsigns =>
    rw [Operation.isGet_of_signs hsigns] at hget
    cases hget
  | prunes k f => cases hlookup
  | _ => cases hget

end Collection

namespace Operation

variable {E : Type}

/-- An operation that neither adds nor reads has written nothing if it tells of no change. -/
theorem fits_eq {c : Collection E} {op : Operation E} (ha : op.isAdd = false)
    (hg : op.isGet = false) : op.Fits c = IdleIf (Answer.tellsNoChange (α := α)) := by
  cases op with
  | add e => cases ha
  | get id lookup => cases hg
  | _ => rfl

theorem fits_forget {c : Collection E} {op : Operation E} {call : StoreCall}
    {answer : Except StoreError call.Result} {r : Except Failure (Answer E)}
    (h : op.Fits c call answer r) : op.Fits c call answer (r.map Answer.forget) := by
  have hforget : ∀ x : Answer E, x.forget.tellsNoChange = x.tellsNoChange := by
    intro x
    cases x <;> rfl
  cases op with
  | add e => exact Collection.readsBack_map _ h
  | get id lookup => exact trivial
  | _ => exact idleIf_map hforget h

end Operation

namespace Pool

variable {asked : Nat → Asked} {w : Surroundings} {s : Store}
  {τ σ υ : List (Event (Except Failure (Answer Unit)))}
  {e : Event (Except Failure (Answer Unit))}

/-- **What is asked is careful.** -/
theorem cautious_ofAsked (s : Store) (asked : Nat → Asked) (i : Nat) :
    ((ofAsked s asked).programs i).Cautious
      ((asked i).operation.Fits (asked i).collection (α := Unit)) := by
  refine .inl ((Collection.careful_program (asked i).operation).bind_done fun r => ?_)
  exact ⟨_, rfl, fun _ _ => Operation.fits_forget⟩

theorem makes_ofAsked (hk : Asked.Lawful asked) (h : (ofAsked s asked).History w τ) :
    ∀ e ∈ τ, (asked e.actor).collection.Makes (asked e.actor).caller (asked e.actor).operation
      e.exchange.1 := by
  refine h.always (φ := fun i r => (asked i).collection.Makes (asked i).caller
    (asked i).operation r) fun i => ?_
  exact Program.always_bind (Collection.makes_program (hk i).schema (asked i).operation)
    fun _ => trivial

theorem distinct_after (h : (ofAsked s asked).History w τ) (hs : s.Distinct) :
    ((ofAsked s asked).after τ).store.Distinct := by
  refine h.invariant (P := fun p => p.store.Distinct) hs fun p e _ hp hstep => ?_
  exact Store.distinct_of_reply hstep.reply (hstep.before ▸ hp)

/-- **An operation that tells of no change**, or fails, has left every document as it was. -/
theorem unchanged_of_idle (hk : Asked.Lawful asked) (h : (ofAsked .empty asked).History w τ)
    {r : Except Failure (Answer Unit)}
    (hdone : ((ofAsked .empty asked).after τ).programs e.actor = .done r)
    (hidle : TellsIdle Answer.tellsNoChange r)
    (hlookup : (asked e.actor).operation.isLookup = false) (he : e ∈ τ) {d : Document}
    (hd : (id, d) ∈ e.before.entries name) : (id, d) ∈ e.after.entries name := by
  obtain ⟨σ, υ, rfl⟩ := List.append_of_mem he
  have hstep := h.step
  obtain ⟨hσ, -⟩ := history_append.mp h
  have hmakes := makes_ofAsked hk h e he
  cases hq : e.exchange.1.isQuiet with
  | true =>
    rw [hstep.reply.eq_of_isQuiet hq]
    exact hd
  | false =>
    -- The write was the last turn, so the result is the one that fits its answer.
    obtain ⟨call, answer, a, hex, -, hfit, -, hlast⟩ :=
      h.ends_with_write (cautious_ofAsked .empty asked) hq
    obtain rfl : a = r := by
      rw [hlast] at hdone
      exact Program.done.inj hdone
    cases hadd : (asked e.actor).operation.isAdd with
    | true =>
      by_cases hname : name = (asked e.actor).collection.name
      · subst hname
        have hkeyed : e.before.Keyed := hstep.before ▸ keyed_after hk hσ fun _ => .nil
        have hwrites := (asked e.actor).collection.writes_reply
          (issues_ofAsked hk h e he) hstep.reply
        refine (hwrites.mem_iff_of_not_concerned (hkeyed _) (fun hc => ?_) d).mpr hd
        exact hmakes.not_mem_of_isAdd hadd hc (List.mem_map.mpr ⟨_, hd, rfl⟩)
      · rw [Collection.entries_of_reply hname (issues_ofAsked hk h e he) hstep.reply]
        exact hd
    | false =>
      cases hget : (asked e.actor).operation.isGet with
      | true =>
        rw [hmakes.isQuiet_of_isGet hget hlookup] at hq
        cases hq
      | false =>
        rw [Operation.fits_eq hadd hget] at hfit
        have hreply := hstep.reply
        rw [hex] at hreply
        have hdistinct : e.before.Distinct := hstep.before ▸ distinct_after hσ List.nodup_nil
        rw [show e.after = e.before by
          rcases hreply with hreply | ⟨-, -, -, hsame⟩
          · exact hreply.eq_of_misses hdistinct (hfit hidle)
          · exact hsame]
        exact hd

end Pool

/-! ### The trail of a run -/

namespace Directory

variable {asked : Nat → Asked} {w : Surroundings}
  {τ : List (Event (Except Failure (Answer Unit)))}

theorem IsKind.signature {E : Type} {k : EntityKind E} (h : IsKind k) :
    ∃ g ∈ k.schema.fields, g.role = .updatedBy ∧ g.name = "last_update_by" := by
  refine ⟨Field.updatedBy "last_update_by", ?_, rfl, rfl⟩
  cases h with
  | book => simp [Book.kind, Book.schema]
  | category => simp [Category.kind, Category.schema]
  | contact => simp [Contact.kind, Contact.schema]

/-- An operation that writes now has written nothing before. -/
theorem actor_ne_of_touches {e y : Event (Except Failure (Answer Unit))} {name : String} {id : Uuid}
    (h : (Pool.ofAsked .empty asked).History w (τ ++ [e])) (hy : y ∈ τ)
    (ht : y.Touches name id) : e.actor ≠ y.actor := by
  have hpairs := h.pairwise_of_careful (Pool.cautious_ofAsked .empty asked)
  refine (List.pairwise_append.mp hpairs).2.2 y hy e List.mem_cons_self ?_
  exact Bool.eq_false_iff.mpr fun hq => Request.not_concerns_of_isQuiet hq ht

variable {e a : Event (Except Failure (Answer Unit))}
  {σ υ : List (Event (Except Failure (Answer Unit)))} {name : String} {id : Uuid}

/-- **A turn that adds a document** begins its trail. -/
theorem trail_of_added {d : Document} (ht : e.Touches name id)
    (hadd : (asked e.actor).operation.isAdd = true)
    (hzero : d.value? "version" = some (.int64 0))
    (hstamp : d.value? "last_update_by" = some (.string (asked e.actor).caller.stamp)) :
    Trail asked name id e [] d := by
  have hget : (asked e.actor).operation.isGet = false := by
    revert hadd
    cases (asked e.actor).operation <;> first | exact fun _ => rfl | exact nofun
  exact ⟨⟨ht, hadd⟩, nofun, List.nodup_singleton _, hzero, e, lastSigner_concat (τ := []) hget,
    hstamp⟩

/-- **A turn that writes a document** goes on with its trail. -/
theorem trail_of_written (hkind : ∀ i, IsKind (asked i).collection.kind)
    (h : (Pool.ofAsked .empty asked).History w (σ ++ a :: υ ++ [e]))
    (hfew : (writesTo (asked e.actor).collection.name id (σ ++ a :: υ)).length < 2 ^ 53)
    (ht : e.Touches (asked e.actor).collection.name id) {d : Document} {u : Update}
    (hi : u.incs = []) (hu : (asked e.actor).collection.schema.PermitsAll u.sets)
    (htrail : Trail asked (asked e.actor).collection.name id a υ d)
    (hsigned : (asked e.actor).operation.signs = true ∧
        (((asked e.actor).collection.withVersion u).apply d).value? "last_update_by" =
          some (.string (asked e.actor).caller.stamp) ∨
      (asked e.actor).operation.isGet = true ∧
        (((asked e.actor).collection.withVersion u).apply d).value? "last_update_by" =
          d.value? "last_update_by") :
    Trail asked (asked e.actor).collection.name id a (υ ++ [e])
      (((asked e.actor).collection.withVersion u).apply d) := by
  have hless : (writesTo (asked e.actor).collection.name id υ).length < 2 ^ 53 := by
    refine lt_of_le_of_lt ?_ hfew
    exact (((List.sublist_cons_self a υ).trans (List.sublist_append_right σ _)).filter _).length_le
  have hnumber : (Int64.ofNat (writesTo (asked e.actor).collection.name id υ).length).toInt =
      (writesTo (asked e.actor).collection.name id υ).length :=
    Int64.toInt_ofNat_of_lt (by omega)
  have hversion := Collection.value?_versioned_next (hkind e.actor).lawful.schema
    (hkind e.actor).versionName? hi hu htrail.version (by omega)
    (by rw [hnumber, lastVersion]; omega)
  have hactor : e.actor ∉
      (a :: writesTo (asked e.actor).collection.name id υ).map Event.actor := by
    intro hmem
    obtain ⟨y, hy, heq⟩ := List.mem_map.mp hmem
    rcases List.mem_cons.mp hy with rfl | hy
    · have hmem : y ∈ σ ++ y :: υ := List.mem_append_right _ List.mem_cons_self
      exact actor_ne_of_touches h hmem htrail.added.1 heq.symm
    · obtain ⟨hyυ, hty⟩ := List.mem_filter.mp hy
      have hmem : y ∈ σ ++ a :: υ := List.mem_append_right _ (List.mem_cons_of_mem a hyυ)
      exact actor_ne_of_touches h hmem (of_decide_eq_true hty) heq.symm
  refine htrail.next ht hless hactor hversion (hsigned.imp ?_ fun h => h)
  rintro ⟨hop, hstamp⟩
  exact ⟨hop, Operation.isGet_of_signs hop, hstamp⟩

/-- **Every document has a trail**, as long as no document is written 2^53 times. -/
theorem exists_trail (hkind : ∀ i, IsKind (asked i).collection.kind)
    (h : (Pool.ofAsked .empty asked).History w τ)
    (hfew : ∀ name id, (writesTo name id τ).length < 2 ^ 53) :
    ∀ name id d, (id, d) ∈ ((Pool.ofAsked .empty asked).after τ).store.entries name →
      ∃ σ a υ, τ = σ ++ a :: υ ∧ Trail asked name id a υ d := by
  have hk : Asked.Lawful asked := fun i => (hkind i).lawful
  -- The induction is on the last turn, for a trail grows at its end.
  induction τ using List.reverseRecOn with
  | nil =>
    intro name id d hd
    cases hd
  | append_singleton τ e ih =>
    intro name id d hd
    obtain ⟨hτ, -⟩ := Pool.history_append.mp h
    have hless : ∀ name id, (writesTo name id τ).length < 2 ^ 53 := fun name id =>
      (((List.sublist_append_left τ [e]).filter _).length_le).trans_lt (hfew name id)
    have hold := ih hτ hless
    have hstep := h.step
    have he : e ∈ τ ++ [e] := List.mem_append_right _ List.mem_cons_self
    have hissues := Pool.issues_ofAsked hk h e he
    have hmakes := Pool.makes_ofAsked hk h e he
    have hkeyed : e.before.Keyed := hstep.before ▸ Pool.keyed_after hk hτ fun _ => .nil
    -- A turn that does not write the document leaves its trail as it was.
    have hskip : ¬ e.Touches name id → (id, d) ∈ e.before.entries name →
        ∃ σ a υ, τ ++ [e] = σ ++ a :: υ ∧ Trail asked name id a υ d := by
      intro hnot hd
      obtain ⟨σ, a, υ, hsplit, htrail⟩ := hold name id d (hstep.before ▸ hd)
      exact ⟨σ, a, υ ++ [e], by rw [hsplit, List.append_assoc, List.cons_append], htrail.skip hnot⟩
    rw [Pool.after, List.foldl_append, List.foldl_cons, List.foldl_nil] at hd
    change (id, d) ∈ e.after.entries name at hd
    by_cases hname : name = (asked e.actor).collection.name
    · subst hname
      have hwrites := (asked e.actor).collection.writes_reply hissues hstep.reply
      by_cases ht : e.Touches (asked e.actor).collection.name id
      · obtain ⟨g, hg, hrole, hgname⟩ := (hkind e.actor).signature
        have hsigned := hmakes.signed (hk e.actor).schema hg hrole (hkeyed _) hstep.reply ht hd
        rw [hgname] at hsigned
        rcases hwrites.cases_of_concerned (hkeyed _) ht hd with
          ⟨hnew, hzero⟩ | ⟨d', u, hd', hi, hu, rfl⟩
        · rcases hsigned with ⟨hadd, -, hstamp⟩ | ⟨d', hd', -⟩
          · exact ⟨τ, e, [], rfl,
              trail_of_added ht hadd (hzero _ (hkind e.actor).versionName?) hstamp⟩
          · exact absurd (List.mem_map.mpr ⟨_, hd', rfl⟩) hnew
        · rcases hsigned with ⟨-, hnew, -⟩ | ⟨x, hx, hsigned⟩
          · exact absurd (List.mem_map.mpr ⟨_, hd', rfl⟩) hnew
          · obtain rfl := Entries.eq_of_mem (hkeyed _).nodup hx hd'
            obtain ⟨σ, a, υ, rfl, htrail⟩ := hold _ id x (hstep.before ▸ hx)
            exact ⟨σ, a, υ ++ [e], by rw [List.append_assoc, List.cons_append],
              trail_of_written hkind h (hless _ id) ht hi hu htrail hsigned⟩
      · exact hskip ht ((hwrites.mem_iff_of_not_concerned (hkeyed _) ht d).mp hd)
    · rw [Collection.entries_of_reply hname hissues hstep.reply] at hd
      exact hskip (hmakes.not_concerns_of_ne hname) hd

/-- **The audit trail.** Let operations of the three kinds of entities begin on an empty store, and
let their turns come in any order, so that no document is written 2^53 times. Then every document
was added by one of them. Its version is the number of the operations that have written it since,
each of them once, and its signature is the stamp of the caller of the last of all these operations
that did not merely look it up. And an operation that failed or told of no change has left every
document as it was, unless it was a look-up. -/
theorem audit_trail (hkind : ∀ i, IsKind (asked i).collection.kind)
    (h : (Pool.ofAsked .empty asked).History w τ)
    (hfew : ∀ name id, (writesTo name id τ).length < 2 ^ 53) :
    (∀ name id d, (id, d) ∈ ((Pool.ofAsked .empty asked).after τ).store.entries name →
        ∃ σ a υ, τ = σ ++ a :: υ ∧ Trail asked name id a υ d) ∧
      ∀ i r, ((Pool.ofAsked .empty asked).after τ).programs i = .done r →
        TellsIdle Answer.tellsNoChange r → (asked i).operation.isLookup = false →
          ∀ e ∈ τ, e.actor = i → ∀ name id d, (id, d) ∈ e.before.entries name →
            (id, d) ∈ e.after.entries name := by
  refine ⟨exists_trail hkind h hfew, ?_⟩
  rintro i r hdone hidle hlookup e he rfl name id d hd
  exact Pool.unchanged_of_idle (fun i => (hkind i).lawful) h hdone hidle hlookup he hd

/-! ### A contact with a past -/

/-- A contact and its manager are added, the contact is renamed, the manager is deleted, and the
contact is looked up. -/
def curated (i : Nat) : Asked :=
  ⟨({} : Setup).contacts, ⟨some (["ann", "ann", "bea", "cy", "dan"].getD i "eve")⟩, match i with
    | 0 => .add (.ofRecord { ContactRecord.ofName "Cy" "Chef" with id := .ofByte 3 })
    | 1 => .add (.ofRecord { ContactRecord.ofName "Ann" "Aebi" with
        id := .ofByte 1
        managerId := some (.ofByte 3) })
    | 2 => .update (.ofRecord { ContactRecord.ofName "Ann" "Abt" with id := .ofByte 1 }) none
    | 3 => .delete (.ofByte 3)
    | _ => .get (.ofByte 1) true⟩

/-- They have their turns one after the other. -/
def curatedTurns : List (Event (Except Failure (Answer Unit))) :=
  (Pool.ofAsked .empty curated).play ([0, 1, 2, 3, 4].flatMap (List.replicate 24))

/-- The contact was written three times, and signed by the second caller of these. -/
theorem curated_trail :
    (writesTo "contacts" (.ofByte 1) curatedTurns).map Event.actor = [1, 2, 4] ∧
      ∃ σ a υ d, curatedTurns = σ ++ a :: υ ∧ Trail curated "contacts" (.ofByte 1) a υ d ∧
        a.actor = 1 ∧ (d.value? "last_update_by").bind Value.string? = some "bea" := by
  have hhist : (Pool.ofAsked .empty curated).History .any curatedTurns :=
    Pool.history_play trivial _ _
  have hfew : ∀ name id, (writesTo name id curatedTurns).length < 2 ^ 53 := by
    intro name id
    refine lt_of_le_of_lt (List.length_filter_le _ _) ?_
    decide +kernel
  obtain ⟨htrails, -⟩ := audit_trail (fun _ => .contact) hhist hfew
  obtain ⟨⟨k, d⟩, hd, rfl, hsigned⟩ : ∃ e ∈ ((Pool.ofAsked .empty curated).after
      curatedTurns).store.entries "contacts", e.1 = .ofByte 1 ∧
        (Document.value? e.2 "last_update_by").bind Value.string? = some "bea" := by decide +kernel
  obtain ⟨σ, a, υ, hsplit, htrail⟩ := htrails _ _ d hd
  have honly : ∀ e ∈ curatedTurns, e.Touches "contacts" (.ofByte 1) →
      (curated e.actor).operation.isAdd = true → e.actor = 1 := by decide +kernel
  have hmem : a ∈ curatedTurns := hsplit ▸ List.mem_append_right _ List.mem_cons_self
  exact ⟨by decide +kernel, σ, a, υ, d, hsplit, htrail,
    honly a hmem htrail.added.1 htrail.added.2, hsigned⟩

end Directory

end Registrar
