import Registrar.Proofs.Engine.Ceiling
import Registrar.Proofs.Engine.Guarded

/-!
# Collections that share a store

Callers ask for operations of several collections, each with a kind, a policy and settings of its
own, and all of them share one store. Their requests come in any order. What is common to such
operations is their answer without the entities in it, which are of different kinds.

* `Asked`, `Pool.ofAsked`: operations that begin together.
* `loads_asked`: what an operation loads, and how it writes it later.
* `keyed_after`, `counted_after`: what all operations keep, however their turns are mixed.
* `Store.Made`: the stores that operations may leave at any moment.
-/

namespace Registrar

/-! ### What is asked -/

/-- **An answer without the entities** in it. -/
def Answer.forget {E : Type} : Answer E → Answer Unit
  | .added _ => .added ()
  | .found r => .found ⟨(), r.changedFields⟩
  | .page p => .page (p.map fun _ => ())
  | .wrote r => .wrote r
  | .number n => .number n
  | .deleted => .deleted
  | .changed b => .changed b

/-- **What is asked of one of several collections.** -/
structure Asked where
  {E : Type}
  collection : Collection E
  caller : Caller
  operation : Operation E

namespace Asked

/-- The program of what is asked. -/
def program (a : Asked) : Program (Except Failure (Answer Unit)) :=
  Program.bind (a.operation.program a.collection a.caller).run fun r => .done (r.map Answer.forget)

/-- All kinds are lawful. -/
def Lawful (asked : Nat → Asked) : Prop := ∀ i, (asked i).collection.kind.Lawful

/-- All collections with the name count their writes in the field. -/
def CountsIn (asked : Nat → Asked) (name field : String) : Prop :=
  ∀ i, (asked i).collection.name = name →
    (asked i).collection.schema.versionName? = some field

end Asked

/-! ### The shape of an operation, its answer being changed -/

section

variable {E α β : Type} {c : Collection E} {caller : Caller} {id : Uuid} {version : Option Int64}

theorem Program.Guards.map {reports : (Except StoreError Nat → Program α) → Prop}
    {reports' : (Except StoreError Nat → Program β) → Prop} {f : α → β} {p : Program α}
    (h : p.Guards c id version reports)
    (hr : ∀ next, reports next → reports' fun n => bind (next n) fun a => .done (f a)) :
    (bind p fun a => .done (f a)).Guards c id version reports' := by
  induction p with
  | done a => exact trivial
  | ask r next ih =>
    have hquiet : r.isQuiet = true → (∀ answer, (next answer).Guards c id version reports) →
        (bind (ask r next) fun a => .done (f a)).Guards c id version reports' :=
      fun hq hn => (guards_ask_quiet hq).mpr fun answer => ih answer (hn answer)
    cases r with
    | store call =>
      cases call with
      | updateFirst g u name => exact ⟨h.1, hr next h.2⟩
      | _ => exact hquiet h.1 h.2
    | isCancelled => exact hquiet h.1 h.2
    | newId => exact hquiet h.1 h.2
    | now => exact hquiet h.1 h.2

theorem Program.Loads.map {then_ : Document → Program α → Prop}
    {then' : Document → Program β → Prop} {f : α → β} {p : Program α}
    (h : p.Loads c caller id then_)
    (ht : ∀ d q, then_ d q → then' d (bind q fun a => .done (f a))) :
    (bind p fun a => .done (f a)).Loads c caller id then' := by
  have hquiet : ∀ {q : Program α}, q.Quiet → (bind q fun a => .done (f a)).Quiet :=
    fun hq => always_bind hq fun _ => trivial
  induction p with
  | done a => exact trivial
  | ask r next ih =>
    cases r with
    | store call =>
      cases call with
      | find query name =>
        obtain ⟨hquery, hname, herr, hnil, hcons⟩ := h
        exact ⟨hquery, hname, fun e => hquiet (herr e), hquiet hnil,
          fun d ds => ht d _ (hcons d ds)⟩
      | _ => exact h.elim
    | isCancelled => exact fun answer => ih answer (h answer)
    | newId => exact fun answer => ih answer (h answer)
    | now => exact fun answer => ih answer (h answer)

theorem Operation.Reports.map {op : Operation E} {f : α → β}
    {next : Except StoreError Nat → Program (Except Failure α)} (h : op.Reports id next) :
    op.Reports id fun n => Program.bind (next n) fun r => .done (r.map f) := by
  rw [Reports] at h ⊢
  split at h
  · rename_i hget
    rw [if_pos hget]
    obtain ⟨r, hne, hr⟩ := h
    refine ⟨r.map f, fun heq => hne ?_, fun n => by rw [hr n]; rfl⟩
    cases r with
    | error e => exact congrArg Except.error (Except.error.inj heq)
    | ok a => cases heq
  · rename_i hget
    rw [if_neg hget]
    obtain ⟨hzero, a, hone⟩ := h
    exact ⟨by rw [hzero]; rfl, f a, fun n hn => by rw [hone n hn]; rfl⟩

/-- **What is asked has the shape of its operation.** -/
theorem loads_asked {a : Asked} {field : String}
    (hf : a.collection.schema.versionName? = some field)
    (hop : a.operation.loads? a.collection.kind = some id) :
    a.program.Loads a.collection a.caller id fun d p =>
      ∀ v, a.collection.knownVersion d = some v →
        p.Guards a.collection id (some v) (a.operation.Reports id) := by
  refine (Collection.loads_program hf hop).map fun d q hq v hv => ?_
  exact (hq v hv).map fun next hnext => hnext.map

end

/-! ### Histories -/

namespace Pool

variable {α : Type} {w : Surroundings} {s : Store} {asked : Nat → Asked}

/-- **The requests in a history** are those that their programs may make. -/
theorem History.always {p : Pool α} {τ : List (Event α)} {φ : Nat → Request → Prop}
    (h : p.History w τ) (hp : ∀ i, (p.programs i).Always (φ i)) :
    ∀ e ∈ τ, φ e.actor e.exchange.1 := by
  induction h with
  | nil p => simp
  | @cons p e τ step rest ih =>
    obtain ⟨go, hask, hrest⟩ := step.asks
    have he := hp e.actor
    rw [hask] at he
    have hnext : ∀ i, ((p.next e).programs i).Always (φ i) := by
      intro i
      by_cases hi : e.actor = i
      · subst hi
        rw [programs_next_self, hrest]
        exact he.2 _
      · rw [programs_next_of_ne hi]
        exact hp i
    intro x hx
    rcases List.mem_cons.mp hx with rfl | hx
    · exact he.1
    · exact ih hnext x hx

/-- **Operations that begin together** on a store. -/
def ofAsked (s : Store) (asked : Nat → Asked) : Pool (Except Failure (Answer Unit)) :=
  ⟨s, fun i => (asked i).program⟩

variable {τ : List (Event (Except Failure (Answer Unit)))}

theorem issues_ofAsked (hk : Asked.Lawful asked) (h : (ofAsked s asked).History w τ) :
    ∀ e ∈ τ, (asked e.actor).collection.Issues e.exchange.1 := by
  have hprograms : ∀ i, ((ofAsked s asked).programs i).Always (asked i).collection.Issues := by
    intro i
    have hissues := (asked i).collection.issues_program (asked i).caller (hk i) (asked i).operation
    exact Program.always_bind hissues fun _ => trivial
  exact h.always hprograms

/-- **All operations keep a store keyed.** -/
theorem keyed_after (hk : Asked.Lawful asked) (h : (ofAsked s asked).History w τ) (hs : s.Keyed) :
    ((ofAsked s asked).after τ).store.Keyed := by
  refine h.invariant (P := fun p => p.store.Keyed) hs fun p e he hp hstep => ?_
  have hissues := issues_ofAsked hk h e he
  exact Collection.keyed_of_reply (hk e.actor).schema hissues hstep.reply (hstep.before ▸ hp)

/-- **All operations keep a collection counted**, if they count in the same field. -/
theorem counted_after (hk : Asked.Lawful asked) {name field : String}
    (hf : Asked.CountsIn asked name field) (h : (ofAsked s asked).History w τ)
    (hs : Counted field (s.entries name)) :
    Counted field (((ofAsked s asked).after τ).store.entries name) := by
  refine h.invariant (P := fun p => Counted field (p.store.entries name)) hs
    fun p e he hp hstep => ?_
  have hissues := issues_ofAsked hk h e he
  have hbefore : Counted field (e.before.entries name) := hstep.before ▸ hp
  change Counted field (e.after.entries name)
  by_cases hname : name = (asked e.actor).collection.name
  · subst hname
    have hwrites := (asked e.actor).collection.writes_reply hissues hstep.reply
    exact hwrites.counted (hk e.actor).schema (hf e.actor rfl) hbefore
  · rw [Collection.entries_of_reply hname hissues hstep.reply]
    exact hbefore

end Pool

/-- **The stores that operations make** of the empty one, at any moment of any history. -/
def Store.Made (s : Store) : Prop :=
  ∃ asked τ, Asked.Lawful asked ∧ (Pool.ofAsked .empty asked).History .any τ ∧
    ((Pool.ofAsked .empty asked).after τ).store = s

theorem Store.Made.keyed {s : Store} (h : s.Made) : s.Keyed := by
  obtain ⟨asked, τ, hk, hτ, rfl⟩ := h
  exact Pool.keyed_after hk hτ fun _ => .nil

end Registrar
