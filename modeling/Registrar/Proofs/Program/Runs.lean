import Registrar.Engine.Session

/-!
# Runs of a program

`Program.run` runs a program in one session. What holds of an operation holds whatever happens
around it, so this file says which results a program **may** have. The relation `Program.Runs`
leaves open what a session fixes: when the operation is cancelled, which ids are drawn, what time
it is, which reading calls fail, and in which order a collection yields its documents. A run has
the store for itself; `Program/Interleaving` lets programs share one.

* `Surroundings`: what may happen around a program.
* `Store.Replies`, `Surroundings.Reply`: the answers that a call and a request may get.
* `Program.Runs`: the results that a program may have, and the store it may leave.
* `runs_bindE`, `runs_inPlace`: a run of a sequence is a sequence of runs.
* `exists_runs`: every program has a run.
* `runs_run`, `exists_runs_ok`: what a session does is one of the runs.
-/

namespace Registrar

/-- **What may happen around a program.** -/
structure Surroundings where
  /-- The operation may turn out to be cancelled. -/
  cancels : Prop
  /-- A reading call may fail. -/
  fails : Prop
  /-- The ids that may be drawn. -/
  draws : Uuid → Prop

namespace Surroundings

/-- Anything may happen. -/
def any : Surroundings := ⟨True, True, fun _ => True⟩

/-- The operation is not cancelled and no call fails. -/
def calm : Surroundings := ⟨False, False, fun _ => True⟩

end Surroundings

/-- **What a store may answer to a call**, and the store afterwards. The documents that a query is
answered from come in any order. -/
def Store.Replies (s : Store) :
    (call : StoreCall) → Except StoreError call.Result → Store → Prop
  | .find query name, answer, t =>
    (∃ ds, ds.Perm (s.entries name).documents ∧ answer = .ok (query.answer ds)) ∧ t = s
  | call, answer, t => (answer, t) = s.serve call

/-- **What a request may be answered**, and the store afterwards. -/
def Surroundings.Reply (w : Surroundings) (s : Store) :
    (r : Request) → r.Answer → Store → Prop
  | .store call, answer, t =>
    s.Replies call answer t ∨ w.fails ∧ call.isWrite = false ∧ (∃ e, answer = .error e) ∧ t = s
  | .isCancelled, b, t => (b = true → w.cancels) ∧ t = s
  | .newId, u, t => w.draws u ∧ t = s
  | .now, _, t => t = s

/-- **The results that a program may have**, and the store it may leave. -/
def Program.Runs {α : Type} (w : Surroundings) : Program α → Store → α → Store → Prop
  | .done a, s, b, t => b = a ∧ t = s
  | .ask r next, s, b, t => ∃ answer u, w.Reply s r answer u ∧ Runs w (next answer) u b t

/-! ### Answers -/

namespace Store

theorem replies_serve (s : Store) (call : StoreCall) :
    s.Replies call (s.serve call).1 (s.serve call).2 := by
  cases call with
  | find query name => exact ⟨⟨_, List.Perm.refl _, rfl⟩, rfl⟩
  | _ => rfl

theorem Replies.eq_of_not_isWrite {s t : Store} {call : StoreCall}
    {answer : Except StoreError call.Result} (h : s.Replies call answer t)
    (hw : call.isWrite = false) : t = s := by
  cases call with
  | find query name => exact h.2
  | count filter name => exact congrArg Prod.snd h
  | listCollections => exact congrArg Prod.snd h
  | _ => simp [StoreCall.isWrite] at hw

end Store

theorem Surroundings.Reply.replies {w : Surroundings} {s t : Store} {call : StoreCall}
    {answer : Except StoreError call.Result} (h : w.Reply s (.store call) answer t)
    (hw : call.isWrite = true) : s.Replies call answer t := by
  rcases h with h | ⟨-, hr, -⟩
  · exact h
  · rw [hw] at hr; exact absurd hr (by decide)

theorem Surroundings.Reply.any {w : Surroundings} {s t : Store} {r : Request} {a : r.Answer}
    (h : w.Reply s r a t) : Surroundings.any.Reply s r a t := by
  cases r with
  | store call => exact h.imp_right fun ⟨_, hrest⟩ => ⟨trivial, hrest⟩
  | isCancelled => exact ⟨fun _ => trivial, h.2⟩
  | newId => exact ⟨trivial, h.2⟩
  | now => exact h

namespace Program

instance : LawfulMonad Program :=
  LawfulMonad.mk' Program bind_done (fun _ _ => rfl) bind_assoc

variable {α β : Type} {w : Surroundings} {s t u : Store}

/-! ### Runs of programs -/

/-- **A run of a sequence is a sequence of runs.** -/
theorem runs_bind (p : Program α) (f : α → Program β) {b : β} :
    (bind p f).Runs w s b u ↔ ∃ a t, p.Runs w s a t ∧ (f a).Runs w t b u := by
  induction p generalizing s with
  | done a =>
    constructor
    · intro h
      exact ⟨a, s, ⟨rfl, rfl⟩, h⟩
    · rintro ⟨_, _, ⟨rfl, rfl⟩, h⟩
      exact h
  | ask r next ih =>
    simp only [bind, Runs, ih]
    constructor
    · rintro ⟨answer, u', hr, a, t, hp, hf⟩
      exact ⟨a, t, ⟨answer, u', hr, hp⟩, hf⟩
    · rintro ⟨a, t, ⟨answer, u', hr, hp⟩, hf⟩
      exact ⟨answer, u', hr, a, t, hp, hf⟩

/-- **Every program has a run**, when there are ids to draw. -/
theorem exists_runs (hw : ∃ u, w.draws u) (p : Program α) (s : Store) :
    ∃ a t, p.Runs w s a t := by
  induction p generalizing s with
  | done a => exact ⟨a, s, rfl, rfl⟩
  | ask r next ih =>
    obtain ⟨answer, u, hr⟩ : ∃ answer u, w.Reply s r answer u := by
      cases r with
      | store call => exact ⟨_, _, .inl (s.replies_serve call)⟩
      | isCancelled => exact ⟨false, s, by simp, rfl⟩
      | newId => exact ⟨_, s, hw.choose_spec, rfl⟩
      | now => exact ⟨(0 : Int64), s, rfl⟩
    obtain ⟨a, t, h⟩ := ih answer u
    exact ⟨a, t, answer, u, hr, h⟩

theorem Runs.any {p : Program α} {a : α} (h : p.Runs w s a t) : p.Runs .any s a t := by
  induction p generalizing s with
  | done b => exact h
  | ask r next ih =>
    obtain ⟨answer, u, hr, hrest⟩ := h
    exact ⟨answer, u, Surroundings.Reply.any hr, ih answer hrest⟩

theorem due_of_disturbances_nil {x : Session} (h : x.disturbances = []) (k : CallKind) :
    x.due k = [] := by
  simp [Session.due, h]

/-- **What a session does is one of the runs**, if nothing disturbs it. -/
theorem runs_run (p : Program α) (x : Session) (hd : x.disturbances = [])
    (hc : x.cancelled = true → w.cancels) (hn : ∀ n, w.draws (x.supply n)) :
    p.Runs w x.store (p.run x).1 (p.run x).2.store := by
  induction p generalizing x with
  | done a => exact ⟨rfl, rfl⟩
  | ask r next ih =>
    cases r with
    | store call =>
      have hs : x.serveCall call = ((x.store.serve call).1,
          { x with calls := x.calls ++ [call], store := (x.store.serve call).2 }) := by
        simp [Session.serveCall, due_of_disturbances_nil hd]
      refine ⟨_, _, .inl (x.store.replies_serve call), ?_⟩
      simp only [Program.run, Session.serve, hs]
      exact ih _ { x with calls := x.calls ++ [call], store := (x.store.serve call).2 } hd hc hn
    | isCancelled => exact ⟨x.cancelled, _, ⟨hc, rfl⟩, ih _ x hd hc hn⟩
    | newId =>
      exact ⟨_, _, ⟨hn x.drawn, rfl⟩, ih _ { x with drawn := x.drawn + 1 } hd hc hn⟩
    | now => exact ⟨x.now, _, rfl, ih _ x hd hc hn⟩

theorem runs_calm (p : Program α) {x : Session} (hd : x.disturbances = [])
    (hc : x.cancelled = false) : p.Runs .calm x.store (p.run x).1 (p.run x).2.store :=
  p.runs_run x hd (fun h => nomatch hc.symm.trans h) fun _ => trivial

end Program

/-! ### Runs of programs that fail -/

section

variable {ε α β : Type} {w : Surroundings} {s t : Store}

theorem exists_ok_of_runs {m : ExceptT ε Program α} {r : Except ε α} (hrun : m.run.Runs w s r t)
    {p : α → Bool} (h : r.toOption.any p = true) :
    ∃ a, m.run.Runs w s (.ok a) t ∧ p a = true := by
  obtain ⟨a, ha, hp⟩ := (Option.any_eq_true _ _).mp h
  cases r with
  | ok b =>
    cases ha
    exact ⟨_, hrun, hp⟩
  | error e => cases ha

theorem exists_runs_ok (m : ExceptT ε Program α) {x : Session} (hd : x.disturbances = [])
    {p : α → Bool} (h : (m.run.run x).1.toOption.any p = true) :
    ∃ a, m.run.Runs .any x.store (.ok a) (m.run.run x).2.store ∧ p a = true :=
  exists_ok_of_runs (m.run.runs_run x hd (fun _ => trivial) fun _ => trivial) h

theorem exists_calm_runs_ok (m : ExceptT ε Program α) {x : Session} (hd : x.disturbances = [])
    (hc : x.cancelled = false) {p : α → Bool} (h : (m.run.run x).1.toOption.any p = true) :
    ∃ a, m.run.Runs .calm x.store (.ok a) (m.run.run x).2.store ∧ p a = true :=
  exists_ok_of_runs (m.run.runs_calm hd hc) h

/-- **A sequence fails where its first part fails**, and goes on with the result otherwise. -/
theorem runs_bindE (m : ExceptT ε Program α) (k : α → ExceptT ε Program β) {r : Except ε β} :
    (m >>= k).run.Runs w s r t ↔
      (∃ a u, m.run.Runs w s (.ok a) u ∧ (k a).run.Runs w u r t) ∨
        ∃ e, m.run.Runs w s (.error e) t ∧ r = .error e := by
  change Program.Runs w (Program.bind m.run _) s r t ↔ _
  rw [Program.runs_bind]
  constructor
  · rintro ⟨a, u, hm, hk⟩
    cases a with
    | ok a => exact .inl ⟨a, u, hm, hk⟩
    | error e =>
      obtain ⟨hr, hu⟩ : r = .error e ∧ t = u := hk
      exact .inr ⟨e, hu ▸ hm, hr⟩
  · rintro (⟨a, u, hm, hk⟩ | ⟨e, hm, rfl⟩)
    · exact ⟨.ok a, u, hm, hk⟩
    · exact ⟨.error e, t, hm, rfl, rfl⟩

theorem runs_bindE_ok {u : Store} {m : ExceptT ε Program α} {k : α → ExceptT ε Program β} {a : α}
    {r : Except ε β} (hm : m.run.Runs w s (.ok a) u) (hk : (k a).run.Runs w u r t) :
    (m >>= k).run.Runs w s r t :=
  (runs_bindE m k).mpr (.inl ⟨a, u, hm, hk⟩)

theorem runs_inPlace (place : String) (p : StoreM α) {r : Except Failure α} :
    (OperationM.inPlace place p).run.Runs w s r t ↔
      (∃ a, p.run.Runs w s (.ok a) t ∧ r = .ok a) ∨
        ∃ e, p.run.Runs w s (.error e) t ∧ r = .error (.ofStore place e) := by
  change Program.Runs w (Program.bind p.run _) s r t ↔ _
  rw [Program.runs_bind]
  constructor
  · rintro ⟨a, u, hp, hk⟩
    cases a with
    | ok a => obtain ⟨rfl, rfl⟩ := hk; exact .inl ⟨a, hp, rfl⟩
    | error e => obtain ⟨rfl, rfl⟩ := hk; exact .inr ⟨e, hp, rfl⟩
  · rintro (⟨a, hp, rfl⟩ | ⟨e, hp, rfl⟩)
    · exact ⟨.ok a, t, hp, rfl, rfl⟩
    · exact ⟨.error e, t, hp, rfl, rfl⟩

theorem runs_call (c : StoreCall) {r : Except StoreError c.Result} :
    (StoreM.call c).run.Runs w s r t ↔ w.Reply s (.store c) r t := by
  constructor
  · rintro ⟨_, _, h, rfl, rfl⟩
    exact h
  · intro h
    exact ⟨r, t, h, rfl, rfl⟩

theorem runs_check {r : Except StoreError Unit} :
    StoreM.check.run.Runs w s r t ↔
      (r = .ok () ∨ w.cancels ∧ r = .error .cancelled) ∧ t = s := by
  constructor
  · rintro ⟨b, _, ⟨hb, rfl⟩, rfl, rfl⟩
    cases b with
    | false => exact ⟨.inl rfl, rfl⟩
    | true => exact ⟨.inr ⟨hb rfl, rfl⟩, rfl⟩
  · rintro ⟨rfl | ⟨hc, rfl⟩, rfl⟩
    · exact ⟨false, t, ⟨by simp, rfl⟩, rfl, rfl⟩
    · exact ⟨true, t, ⟨fun _ => hc, rfl⟩, rfl, rfl⟩

theorem runs_guarded (p : StoreM α) {r : Except StoreError α} :
    (StoreM.guarded p).run.Runs w s r t ↔
      p.run.Runs w s r t ∨ w.cancels ∧ r = .error .cancelled ∧ t = s := by
  rw [StoreM.guarded, runs_bindE]
  constructor
  · rintro (⟨_, u, hc, hp⟩ | ⟨e, hc, rfl⟩)
    · obtain ⟨-, rfl⟩ := runs_check.mp hc
      exact .inl hp
    · obtain ⟨h | ⟨hcancel, h⟩, rfl⟩ := runs_check.mp hc
      · cases h
      · cases h; exact .inr ⟨hcancel, rfl, rfl⟩
  · rintro (hp | ⟨hc, rfl, rfl⟩)
    · exact .inl ⟨(), s, runs_check.mpr ⟨.inl rfl, rfl⟩, hp⟩
    · exact .inr ⟨_, runs_check.mpr ⟨.inr ⟨hc, rfl⟩, rfl⟩, rfl⟩

end

end Registrar
