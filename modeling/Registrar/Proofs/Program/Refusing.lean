import Registrar.Proofs.Program.Requests

/-!
# Programs that are refused alike

A program may be about something that a store lacks, or only seems to lack. Then it is **refused**:
it changes nothing and fails. Of several stores none tells that it is this one, if a program goes on
in the same way whichever of them has answered its calls. Both are one property of the tree of
requests, which is checked up to the failure; what a program would do after it does not matter.

* `Program.Refused`: a program fails in all stores of a kind, and cannot tell them apart.
* `Refused.bind`: so does every program that begins with it.
* `Refused.runs`: what it may do in one of the stores, it may do in all of them.
* `Refused.run`: a session ends in the same way with each of the stores.
-/

namespace Registrar

variable {S : Store → Prop} {s t : Store}

namespace Program

variable {ε α β : Type}

/-- **A program is refused in the stores of a kind**: it changes nothing, each call leads on in one
way whichever of the stores answers it, and in the end it fails. -/
def Refused (S : Store → Prop) : Program (Except ε α) → Prop
  | .done r => r.isOk = false
  | .ask (.store call) next =>
    call.isWrite = false ∧
      (∀ s t a b, S s → S t → s.Replies call a s → t.Replies call b t → next a = next b) ∧
      (∀ s a, S s → s.Replies call a s → (next a).Refused S) ∧
      ∀ e, (next (.error e)).Refused S
  | .ask .isCancelled next => ∀ cancelled, (next cancelled).Refused S
  | .ask .newId next => ∀ id, (next id).Refused S
  | .ask .now next => ∀ time, (next time).Refused S

theorem Refused.bind {m : ExceptT ε Program α} (hm : m.run.Refused S)
    (k : α → ExceptT ε Program β) : (m >>= k).run.Refused S := by
  change (Program.bind m.run _).Refused S
  generalize m.run = p at hm ⊢
  induction p with
  | done r =>
    cases r with
    | ok a => cases hm
    | error e => exact rfl
  | ask r next ih =>
    cases r with
    | store call =>
      obtain ⟨hread, halike, hanswer, hfail⟩ := hm
      refine ⟨hread, fun s t a b hs ht ha hb => ?_, fun s a hs ha => ih a (hanswer s a hs ha),
        fun e => ih _ (hfail e)⟩
      exact congrArg (Program.bind · _) (halike s t a b hs ht ha hb)
    | isCancelled => exact fun cancelled => ih cancelled (hm cancelled)
    | newId => exact fun id => ih id (hm id)
    | now => exact fun time => ih time (hm time)

/-! ### Runs -/

/-- **A run that is refused** fails, leaves its store as it is, and may take place in every other
store of the kind. -/
theorem Refused.runs {w : Surroundings} {p : Program (Except ε α)} (hp : p.Refused S) (hs : S s)
    {r : Except ε α} {u : Store} (h : p.Runs w s r u) :
    u = s ∧ r.isOk = false ∧ ∀ t, S t → p.Runs w t r t := by
  induction p with
  | done r' =>
    obtain ⟨rfl, rfl⟩ := h
    exact ⟨rfl, hp, fun t _ => ⟨rfl, rfl⟩⟩
  | ask request next ih =>
    obtain ⟨answer, v, hreply, hrest⟩ := h
    cases request with
    | store call =>
      obtain ⟨hread, halike, hanswer, hfail⟩ := hp
      rcases hreply with hreply | ⟨hw, -, ⟨e, rfl⟩, rfl⟩
      · obtain rfl := hreply.eq_of_not_isWrite hread
        obtain ⟨rfl, hr, hall⟩ := ih answer (hanswer v answer hs hreply) hrest
        refine ⟨rfl, hr, fun t ht => ?_⟩
        -- The other store has an answer of its own, which leads on in the same way.
        have hother := t.replies_serve call
        rw [t.serve_of_not_isWrite hread] at hother
        refine ⟨_, t, .inl hother, ?_⟩
        rw [halike t u _ answer ht hs hother hreply]
        exact hall t ht
      · obtain ⟨rfl, hr, hall⟩ := ih _ (hfail e) hrest
        exact ⟨rfl, hr, fun t ht => ⟨_, t, .inr ⟨hw, hread, ⟨e, rfl⟩, rfl⟩, hall t ht⟩⟩
    | isCancelled =>
      obtain ⟨hcancel, rfl⟩ := hreply
      obtain ⟨rfl, hr, hall⟩ := ih answer (hp answer) hrest
      exact ⟨rfl, hr, fun t ht => ⟨answer, t, ⟨hcancel, rfl⟩, hall t ht⟩⟩
    | newId =>
      obtain ⟨hdraw, rfl⟩ := hreply
      obtain ⟨rfl, hr, hall⟩ := ih answer (hp answer) hrest
      exact ⟨rfl, hr, fun t ht => ⟨answer, t, ⟨hdraw, rfl⟩, hall t ht⟩⟩
    | now =>
      obtain rfl := hreply
      obtain ⟨rfl, hr, hall⟩ := ih answer (hp answer) hrest
      exact ⟨rfl, hr, fun t ht => ⟨answer, t, rfl, hall t ht⟩⟩

end Program

/-! ### Sessions -/

namespace Session

/-- The session with another store. -/
def withStore (x : Session) (s : Store) : Session := { x with store := s }

/-- **Nobody else writes** while the session lasts; calls may fail, and the operation may be
cancelled. -/
def Alone (x : Session) : Prop := ∀ d ∈ x.disturbances, d.intrusion = none

/-- The session when a call has been disturbed, and is yet to be answered. -/
def disturbed (x : Session) (call : StoreCall) : Session :=
  (x.due call.kind).foldl (disturb call.collection) { x with calls := x.calls ++ [call] }

theorem serveCall_eq (x : Session) (call : StoreCall) :
    x.serveCall call =
      match (x.due call.kind).findSome? Disturbance.failure with
      | some e => (.error e, x.disturbed call)
      | none => (((x.disturbed call).store.serve call).1,
          (x.disturbed call).withStore ((x.disturbed call).store.serve call).2) := rfl

theorem foldl_disturb_withStore {ds : List Disturbance} (h : ∀ d ∈ ds, d.intrusion = none)
    (name : String) (x : Session) (s : Store) :
    ds.foldl (disturb name) (x.withStore s) = (ds.foldl (disturb name) x).withStore s := by
  induction ds generalizing x with
  | nil => rfl
  | cons d ds ih =>
    have hd : disturb name (x.withStore s) d = (disturb name x d).withStore s := by
      simp only [disturb, withStore, h d List.mem_cons_self]
    rw [List.foldl_cons, hd]
    exact ih (fun d' hd' => h d' (List.mem_cons_of_mem d hd')) _

theorem disturbances_foldl (ds : List Disturbance) (name : String) (x : Session) :
    (ds.foldl (disturb name) x).disturbances = x.disturbances := by
  induction ds generalizing x with
  | nil => rfl
  | cons d ds ih => exact ih _

theorem Alone.disturbed {x : Session} (hx : x.Alone) (call : StoreCall) :
    (x.disturbed call).Alone := by
  rw [Alone, Session.disturbed, disturbances_foldl]
  exact hx

/-- **How a call is served** to somebody who is alone: it fails whatever the store, or the store
answers it. -/
theorem Alone.serveCall {x : Session} (hx : x.Alone) (call : StoreCall) (s : Store) :
    (x.withStore s).serveCall call =
      match (x.due call.kind).findSome? Disturbance.failure with
      | some e => (.error e, (x.disturbed call).withStore s)
      | none => ((s.serve call).1, (x.disturbed call).withStore (s.serve call).2) := by
  have hdue : ∀ d ∈ x.due call.kind, d.intrusion = none :=
    fun d hd => hx d (List.mem_filter.mp hd).1
  have hdisturbed : (x.withStore s).disturbed call = (x.disturbed call).withStore s :=
    foldl_disturb_withStore hdue call.collection { x with calls := x.calls ++ [call] } s
  rw [serveCall_eq, hdisturbed]
  rfl

end Session

/-- **A session in which a program is refused** has the same result with every store of the kind,
ends in the same way, and leaves the store as it is. -/
theorem Program.Refused.run {ε α : Type} {p : Program (Except ε α)} (hp : p.Refused S) (hs : S s)
    {x : Session} (hx : x.Alone) :
    ∃ r y, r.isOk = false ∧ ∀ t, S t → p.run (x.withStore t) = (r, Session.withStore y t) := by
  induction p generalizing x with
  | done r => exact ⟨r, x, hp, fun t _ => rfl⟩
  | ask request next ih =>
    cases request with
    | store call =>
      obtain ⟨hread, halike, hanswer, hfail⟩ := hp
      cases hfailure : (x.due call.kind).findSome? Disturbance.failure with
      | some e =>
        obtain ⟨r, y, hr, hall⟩ := ih _ (hfail e) (hx.disturbed call)
        refine ⟨r, y, hr, fun t ht => ?_⟩
        rw [Program.run, Session.serve, hx.serveCall, hfailure]
        exact hall t ht
      | none =>
        have hreplies : ∀ t : Store, t.Replies call (t.serve call).1 t := fun t => by
          simpa only [t.serve_of_not_isWrite hread] using t.replies_serve call
        obtain ⟨r, y, hr, hall⟩ := ih _ (hanswer s _ hs (hreplies s)) (hx.disturbed call)
        refine ⟨r, y, hr, fun t ht => ?_⟩
        rw [Program.run, Session.serve, hx.serveCall, hfailure]
        dsimp only
        rw [halike t s _ _ ht hs (hreplies t) (hreplies s), t.serve_of_not_isWrite hread]
        exact hall t ht
    | isCancelled => exact ih x.cancelled (hp x.cancelled) hx
    | newId =>
      exact ih (x.supply x.drawn) (hp _) (x := { x with drawn := x.drawn + 1 }) hx
    | now => exact ih x.now (hp x.now) hx

end Registrar
