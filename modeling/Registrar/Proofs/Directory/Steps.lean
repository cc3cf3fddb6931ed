import Registrar.Proofs.Directory.Kinds
import Registrar.Proofs.Engine.Ceiling
import Registrar.Proofs.Store.Misses

/-!
# Runs of the directory

The three kinds of entities are used together: callers ask for one operation after another, each on
books, categories or contacts, and each has the store for itself. Whatever the policy, the settings
and the caller are, and whether or not an operation fails, this is a **step** from one store to the
next, and a **run** is a list of steps.

* `Call`, `Step`, `Run`: what is asked, one step and several steps.
* `Run.invariant`: what every step keeps holds to the end.
* `Run.holds_iff`: what is lost with the first bad step.
* `Reached`: the stores in which a run may end.
* `Step.keyed`: steps keep stores keyed.
* `Reached.distinct`, `Reached.counted`: names of collections and versions of documents.
* `run_performed`: the steps of a session are a run.
-/

namespace Registrar

/-- An operation that has the store for itself may leave this store. -/
def Collection.Leaves {E : Type} (c : Collection E) (caller : Caller) (op : Operation E)
    (s t : Store) : Prop :=
  ∃ r, (op.program c caller).run.Runs .any s r t

/-- An operation that has the store for itself may leave this store, in such surroundings. -/
def Collection.LeavesIn {E : Type} (c : Collection E) (w : Surroundings) (caller : Caller)
    (op : Operation E) (s t : Store) : Prop :=
  ∃ r, (op.program c caller).run.Runs w s r t

namespace Collection

variable {E : Type} {c : Collection E} {caller : Caller} {s t : Store} {op : Operation E}

theorem LeavesIn.leaves {w : Surroundings} (h : c.LeavesIn w caller op s t) :
    c.Leaves caller op s t := by
  obtain ⟨r, h⟩ := h
  exact ⟨r, h.any⟩

theorem Leaves.effect (hk : c.kind.Lawful) (hl : c.kind.schema.Linked) (h : c.Leaves caller op s t)
    (hs : s.Keyed) : c.Effect caller s op t := by
  obtain ⟨r, h⟩ := h
  exact effect_program hk.schema hl hs op h

theorem Leaves.entries (hk : c.kind.Lawful) (h : c.Leaves caller op s t) {name : String}
    (hn : name ≠ c.name) : t.entries name = s.entries name := by
  obtain ⟨r, h⟩ := h
  exact entries_program hk h hn

end Collection

/-- A session with an empty store. -/
def Session.fresh : Session := { store := .empty, supply := fun _ => .nil }

namespace Directory

/-! ### Steps -/

/-- What the collections of the directory share. -/
structure Setup where
  policy : AccessPolicy := .unrestricted
  settings : Settings := {}

namespace Setup

variable (u : Setup)

/-- A kind of entities as it is set up. -/
def collection {E : Type} (k : EntityKind E) : Collection E := ⟨k, u.policy, u.settings⟩

def books : Collection Book := ⟨Book.kind, u.policy, u.settings⟩

def categories : Collection Category := ⟨Category.kind, u.policy, u.settings⟩

def contacts : Collection Contact := ⟨Contact.kind, u.policy, u.settings⟩

end Setup

/-- **What callers ask of the directory.** -/
inductive Call where
  | book (op : Operation Book)
  | category (op : Operation Category)
  | contact (op : Operation Contact)

/-- **A step**: what was asked, and the store before and after. -/
structure Step where
  setup : Setup
  caller : Caller
  call : Call
  before : Store
  after : Store

/-- The step is one that the operation may take. -/
def Step.Happens (x : Step) : Prop :=
  match x.call with
  | .book op => x.setup.books.Leaves x.caller op x.before x.after
  | .category op => x.setup.categories.Leaves x.caller op x.before x.after
  | .contact op => x.setup.contacts.Leaves x.caller op x.before x.after

/-- The step is one that the operation may take in such surroundings. -/
def Step.HappensIn (w : Surroundings) (x : Step) : Prop :=
  match x.call with
  | .book op => x.setup.books.LeavesIn w x.caller op x.before x.after
  | .category op => x.setup.categories.LeavesIn w x.caller op x.before x.after
  | .contact op => x.setup.contacts.LeavesIn w x.caller op x.before x.after

theorem Step.HappensIn.happens {w : Surroundings} {x : Step} (h : x.HappensIn w) : x.Happens := by
  obtain ⟨u, caller, call, s, t⟩ := x
  cases call with
  | book op => exact Collection.LeavesIn.leaves h
  | category op => exact Collection.LeavesIn.leaves h
  | contact op => exact Collection.LeavesIn.leaves h

/-- **A run** from a store: steps of which each begins where the one before ended. -/
inductive Run : Store → List Step → Prop where
  | nil (s : Store) : Run s []
  | cons {x : Step} {xs : List Step} (happens : x.Happens) (rest : Run x.after xs) :
      Run x.before (x :: xs)

/-- **What every step keeps** holds before and after every step. -/
theorem Run.invariant {I : Store → Prop} {s : Store} {xs : List Step} (h : Run s xs) (hs : I s)
    (hstep : ∀ x ∈ xs, x.Happens → I x.before → I x.after) :
    ∀ x ∈ xs, x.Happens ∧ I x.before ∧ I x.after := by
  induction h with
  | nil s => simp
  | @cons x xs happens rest ih =>
    have hafter : I x.after := hstep x List.mem_cons_self happens hs
    intro y hy
    rcases List.mem_cons.mp hy with rfl | hy
    · exact ⟨happens, hs, hafter⟩
    · exact ih hafter (fun z hz => hstep z (List.mem_cons_of_mem x hz)) y hy

/-- **When every step is good or bad**: a run keeps something exactly when it has no bad step, if a
bad step loses it, and a good one keeps it together with an invariant on which this depends. -/
theorem Run.holds_iff {I J : Store → Prop} {Bad : Step → Prop} {s : Store} {xs : List Step}
    (h : Run s xs) (hs : J s)
    (hstep : ∀ x : Step, x.Happens → J x.before → (I x.after ↔ ¬ Bad x))
    (hkeep : ∀ x : Step, x.Happens → J x.before → ¬ Bad x → J x.after) :
    (∀ x ∈ xs, I x.after) ↔ ∀ x ∈ xs, ¬ Bad x := by
  induction h with
  | nil s => simp
  | @cons x xs happens rest ih =>
    rw [List.forall_mem_cons, List.forall_mem_cons, hstep x happens hs]
    by_cases hbad : Bad x
    · exact iff_of_false (fun h => h.1 hbad) fun h => h.1 hbad
    · exact and_congr_right fun _ => ih (hkeep x happens hs hbad)

/-- **The stores that are reached** from the empty one. -/
inductive Reached : Store → Prop where
  | empty : Reached .empty
  | step {x : Step} (reached : Reached x.before) (happens : x.Happens) : Reached x.after

theorem Reached.invariant {I : Store → Prop} {s : Store} (h : Reached s) (hempty : I .empty)
    (hstep : ∀ x : Step, x.Happens → I x.before → I x.after) : I s := by
  induction h with
  | empty => exact hempty
  | step _ happens ih => exact hstep _ happens ih

theorem Step.Happens.cases {x : Step} (h : x.Happens) :
    ∃ (E : Type) (k : EntityKind E) (op : Operation E), IsKind k ∧
      (x.setup.collection k).Leaves x.caller op x.before x.after := by
  rw [Step.Happens] at h
  split at h
  · exact ⟨_, _, _, .book, h⟩
  · exact ⟨_, _, _, .category, h⟩
  · exact ⟨_, _, _, .contact, h⟩

theorem IsKind.reached {E : Type} {k : EntityKind E} (hk : IsKind k) {s t : Store} (hs : Reached s)
    (u : Setup) (caller : Caller) (op : Operation E)
    (h : (u.collection k).Leaves caller op s t) : Reached t := by
  cases hk with
  | book => exact .step (x := ⟨u, caller, .book op, s, t⟩) hs h
  | category => exact .step (x := ⟨u, caller, .category op, s, t⟩) hs h
  | contact => exact .step (x := ⟨u, caller, .contact op, s, t⟩) hs h

theorem Step.keyed {x : Step} (h : x.Happens) (hk : x.before.Keyed) : x.after.Keyed := by
  rw [Happens] at h
  split at h
  · obtain ⟨r, h⟩ := h
    exact Collection.keyed_program Book.lawful h hk
  · obtain ⟨r, h⟩ := h
    exact Collection.keyed_program Category.lawful h hk
  · obtain ⟨r, h⟩ := h
    exact Collection.keyed_program Contact.lawful h hk

theorem empty_keyed : Store.empty.Keyed := fun _ => .nil

theorem Reached.keyed {s : Store} (h : Reached s) : s.Keyed :=
  h.invariant empty_keyed fun _ => Step.keyed

theorem Reached.distinct {s : Store} (h : Reached s) : s.Distinct := by
  refine h.invariant List.nodup_nil fun x happens hx => ?_
  obtain ⟨E, k, op, hk, r, hruns⟩ := happens.cases
  exact hruns.invariant ((x.setup.collection k).issues_program x.caller hk.lawful op)
    (fun _ _ _ _ _ => Store.distinct_of_reply) hx

theorem Reached.counted {s : Store} (h : Reached s) (name : String) :
    Counted "version" (s.entries name) := by
  refine h.invariant (I := fun s => ∀ name, Counted "version" (s.entries name))
    (fun _ => .nil _) (fun x happens hx => ?_) name
  obtain ⟨E, k, op, hk, r, hruns⟩ := happens.cases
  exact (x.setup.collection k).counted_program hk.lawful hk.versionName? hruns hx

/-! ### Steps of a session -/

/-- The session after a call. -/
def Call.serve (u : Setup) (caller : Caller) (x : Session) : Call → Session
  | .book op => ((op.program u.books caller).run.run x).2
  | .category op => ((op.program u.categories caller).run.run x).2
  | .contact op => ((op.program u.contacts caller).run.run x).2

theorem happensIn_serve (u : Setup) (caller : Caller) {w : Surroundings} {x : Session}
    (hd : x.disturbances = []) (hc : x.cancelled = true → w.cancels)
    (hn : ∀ n, w.draws (x.supply n)) (call : Call) :
    Step.HappensIn w ⟨u, caller, call, x.store, (call.serve u caller x).store⟩ := by
  have hruns : ∀ {α : Type} (p : Program α), p.Runs w x.store (p.run x).1 (p.run x).2.store :=
    fun p => p.runs_run x hd hc hn
  cases call with
  | book op => exact ⟨_, hruns _⟩
  | category op => exact ⟨_, hruns _⟩
  | contact op => exact ⟨_, hruns _⟩

theorem happens_serve (u : Setup) (caller : Caller) {x : Session} (hd : x.disturbances = [])
    (call : Call) : Step.Happens ⟨u, caller, call, x.store, (call.serve u caller x).store⟩ :=
  (happensIn_serve u caller (w := .any) hd (fun _ => trivial) (fun _ => trivial) call).happens

/-- **The steps of a session** in which calls are made one after the other. -/
def performed (u : Setup) (caller : Caller) : Session → List Call → List Step
  | _, [] => []
  | x, call :: calls =>
    let after := (call.serve u caller x).store
    ⟨u, caller, call, x.store, after⟩ :: performed u caller { x with store := after } calls

theorem run_performed (u : Setup) (caller : Caller) {x : Session} (hd : x.disturbances = [])
    (calls : List Call) : Run x.store (performed u caller x calls) := by
  induction calls generalizing x with
  | nil => exact .nil x.store
  | cons call calls ih =>
    exact .cons (happens_serve u caller hd call) (ih (x := { x with store := _ }) hd)

theorem happensIn_performed (u : Setup) (caller : Caller) {w : Surroundings} {x : Session}
    (hd : x.disturbances = []) (hc : x.cancelled = true → w.cancels)
    (hn : ∀ n, w.draws (x.supply n)) (calls : List Call) :
    ∀ y ∈ performed u caller x calls, y.HappensIn w := by
  induction calls generalizing x with
  | nil => exact fun y hy => absurd hy List.not_mem_nil
  | cons call calls ih =>
    intro y hy
    rcases List.mem_cons.mp hy with rfl | hy
    · exact happensIn_serve u caller hd hc hn call
    · exact ih (x := { x with store := (call.serve u caller x).store }) hd hc hn y hy

/-- The session after calls that are made one after the other. -/
def serveAll (u : Setup) (caller : Caller) (x : Session) (calls : List Call) : Session :=
  calls.foldl (fun x call => { x with store := (call.serve u caller x).store }) x

theorem Reached.serveAll {x : Session} (hx : Reached x.store) (hd : x.disturbances = []) (u : Setup)
    (caller : Caller) (calls : List Call) : Reached (serveAll u caller x calls).store := by
  induction calls generalizing x with
  | nil => exact hx
  | cons call calls ih =>
    exact ih (x := { x with store := _ }) (.step hx (happens_serve u caller hd call)) hd

end Directory

end Registrar
