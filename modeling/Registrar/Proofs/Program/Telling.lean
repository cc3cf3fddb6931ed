import Registrar.Proofs.Program.Requests
import Mathlib.Data.List.Forall2

/-!
# What programs tell of a store

A program that only reads leaves the store as it is, and its result **tells** something of the
store. Whether it may fail depends on what surrounds it; in calm surroundings it surely succeeds.
A program that reads and then writes **ends** in a store that either is the first one or was made by
the write. Both are proved part by part, with one rule for each way of putting programs together.

* `Tells`: the result of a program has a property of the store, unless the program fails.
* `Tells.bind`, `Tells.mapM`: programs one after the other.
* `tells_find`, `tells_count`: what a store answers.
* `Surely`: the one result that a program can have, failing or not.
* `Ends`: the store that a program leaves has a property.
* `Tells.ends`, `ends_write`: reading first, and writing at last.
-/

namespace Registrar

variable {ε α β : Type} {w : Surroundings} {s : Store} {F : Prop} {Q : α → Prop} {R : β → Prop}

/-- **A program tells something of a store** and leaves it as it is: its result has the property.
It fails only if `F`; when this is false, the program surely succeeds. -/
def Tells (w : Surroundings) (s : Store) (F : Prop) (Q : α → Prop) (m : ExceptT ε Program α) :
    Prop :=
  ∀ r t, m.run.Runs w s r t → t = s ∧ match r with
    | .ok a => Q a
    | .error _ => F

theorem tells_pure {a : α} (h : Q a) : Tells w s F Q (pure a : ExceptT ε Program α) := by
  rintro r t ⟨rfl, rfl⟩
  exact ⟨rfl, h⟩

theorem tells_throw (hF : F) (Q : α → Prop) (e : ε) :
    Tells w s F Q (throw e : ExceptT ε Program α) := by
  rintro r t ⟨rfl, rfl⟩
  exact ⟨rfl, hF⟩

theorem Tells.bind {m : ExceptT ε Program α} {k : α → ExceptT ε Program β} (hm : Tells w s F Q m)
    (hk : ∀ a, Q a → Tells w s F R (k a)) : Tells w s F R (m >>= k) := by
  intro r t h
  rcases (runs_bindE m k).mp h with ⟨a, u, ha, hka⟩ | ⟨e, he, rfl⟩
  · obtain ⟨rfl, hQ⟩ := hm _ _ ha
    exact hk a hQ r t hka
  · exact hm _ _ he

/-- **A run that succeeds** goes on from a result of its first part. -/
theorem Tells.ok {m : ExceptT ε Program α} {k : α → ExceptT ε Program β} (hm : Tells w s F Q m)
    {t : Store} {b : β} (h : (m >>= k).run.Runs w s (.ok b) t) :
    ∃ a, Q a ∧ (k a).run.Runs w s (.ok b) t := by
  rcases (runs_bindE m k).mp h with ⟨a, u, ha, hka⟩ | ⟨e, -, he⟩
  · obtain ⟨rfl, hQ⟩ := hm _ _ ha
    exact ⟨a, hQ, hka⟩
  · cases he

theorem Tells.mono {m : ExceptT ε Program α} {Q' : α → Prop} (hm : Tells w s F Q m)
    (h : ∀ a, Q a → Q' a) : Tells w s F Q' m := by
  intro r t hr
  obtain ⟨ht, hQ⟩ := hm r t hr
  cases r with
  | ok a => exact ⟨ht, h a hQ⟩
  | error e => exact ⟨ht, hQ⟩

theorem Tells.inPlace {m : StoreM α} (hm : Tells w s F Q m) (place : String) :
    Tells w s F Q (OperationM.inPlace place m) := by
  intro r t h
  rcases (runs_inPlace place m).mp h with ⟨a, ha, rfl⟩ | ⟨e, he, rfl⟩
  · exact hm _ _ ha
  · exact hm _ _ he

theorem tells_ofExcept {e : Except StoreError α} {a : α} (he : e = .ok a) (h : Q a) :
    Tells w s F Q (StoreM.ofExcept e) := by
  rintro r t ⟨rfl, rfl⟩
  refine ⟨rfl, ?_⟩
  rw [he]
  exact h

/-- What has been decided already is told, and fails only if it is a failure. -/
theorem tells_settled {m : Except StoreError α} (hF : (∃ e, m = .error e) → F) :
    Tells w s F (fun a => m = .ok a) (StoreM.ofExcept m) := by
  rintro r t ⟨rfl, rfl⟩
  refine ⟨rfl, ?_⟩
  cases r with
  | ok a => exact rfl
  | error e => exact hF ⟨e, rfl⟩

theorem tells_decided (hF : F) (e : Except StoreError α) :
    Tells w s F (fun a => e = .ok a) (StoreM.ofExcept e) :=
  tells_settled fun _ => hF

theorem Tells.mapM {f : α → ExceptT ε Program β} {Q : α → β → Prop} {as : List α}
    (h : ∀ a ∈ as, Tells w s F (Q a) (f a)) :
    Tells w s F (List.Forall₂ Q as) (as.mapM f) := by
  induction as with
  | nil => exact tells_pure .nil
  | cons a as ih =>
    rw [List.mapM_cons]
    refine (h a List.mem_cons_self).bind fun b hb => ?_
    refine (ih fun x hx => h x (List.mem_cons_of_mem a hx)).bind fun bs hbs => ?_
    exact tells_pure (.cons hb hbs)

theorem tells_of_yields {m : ExceptT ε Program α} (hq : m.run.Quiet) (hy : m.run.Yields Q) :
    Tells w s True Q m := by
  intro r t h
  refine ⟨h.eq_of_quiet hq, ?_⟩
  cases r with
  | ok a => exact h.results hy a rfl
  | error e => exact trivial

/-! ### Reading -/

theorem Tells.guarded {m : StoreM α} (hw : w.cancels → F) (hm : Tells w s F Q m) :
    Tells w s F Q (StoreM.guarded m) := by
  intro r t h
  rcases (runs_guarded m).mp h with h | ⟨hc, rfl, rfl⟩
  · exact hm r t h
  · exact ⟨rfl, hw hc⟩

/-- **What a query is answered**: the documents come in any order. -/
theorem tells_find (hw : w.fails → F) (query : Query) (name : String) :
    Tells w s F (fun ds => ∃ ds', ds'.Perm (s.entries name).documents ∧ ds = query.answer ds')
      (StoreM.find query name) := by
  intro r t h
  rcases (runs_call _).mp h with ⟨⟨ds', hp, rfl⟩, rfl⟩ | ⟨hf, -, ⟨e, rfl⟩, rfl⟩
  · exact ⟨rfl, ds', hp, rfl⟩
  · exact ⟨rfl, hw hf⟩

theorem tells_count (hw : w.fails → F) (filter : Option Filter) (name : String) :
    Tells w s F (fun n => n = s.count filter name) (StoreM.count filter name) := by
  intro r t h
  rcases (runs_call _).mp h with hr | ⟨hf, -, ⟨e, rfl⟩, rfl⟩
  · cases hr
    exact ⟨rfl, rfl⟩
  · exact ⟨rfl, hw hf⟩

/-! ### Programs with one result -/

/-- **A program surely has a result**, which may be a failure: undisturbed it has no other one, and
it leaves the store as it is. -/
def Surely (s : Store) (m : ExceptT ε Program α) (r : Except ε α) : Prop :=
  ∀ r' t, m.run.Runs .calm s r' t ↔ r' = r ∧ t = s

theorem surely_of_forall {m : ExceptT ε Program α} {r : Except ε α}
    (h : ∀ r' t, m.run.Runs .calm s r' t → r' = r ∧ t = s) : Surely s m r := by
  intro r' t
  refine ⟨h r' t, ?_⟩
  rintro ⟨rfl, rfl⟩
  obtain ⟨a, u, hrun⟩ := Program.exists_runs (w := .calm) ⟨.nil, trivial⟩ m.run t
  obtain ⟨rfl, rfl⟩ := h a u hrun
  exact hrun

theorem surely_ofExcept {m r : Except StoreError α} (h : m = r) :
    Surely s (StoreM.ofExcept m) r := by
  subst h
  exact fun _ _ => Iff.rfl

theorem Tells.surely {m : ExceptT ε Program α} {a : α} (h : Tells .calm s False (· = a) m) :
    Surely s m (.ok a) := by
  refine surely_of_forall fun r t hrun => ?_
  obtain ⟨rfl, hr⟩ := h r t hrun
  cases r with
  | ok b => exact ⟨congrArg Except.ok hr, rfl⟩
  | error e => exact hr.elim

namespace Surely

variable {m : ExceptT ε Program α} {k : α → ExceptT ε Program β} {a : α}

/-- **A program with one result is as good as this result**: what comes after it has just the
outcomes that it has after the result. -/
theorem runs_bind_iff (hm : Surely s m (.ok a)) {r : Except ε β} {t : Store} :
    (m >>= k).run.Runs .calm s r t ↔ (k a).run.Runs .calm s r t := by
  constructor
  · intro h
    rcases (runs_bindE m k).mp h with ⟨b, u, hb, hrest⟩ | ⟨e, he, -⟩
    · obtain ⟨hba, rfl⟩ := (hm _ _).mp hb
      cases hba
      exact hrest
    · exact nomatch ((hm _ _).mp he).1
  · exact fun h => (runs_bindE m k).mpr (.inl ⟨a, s, (hm _ _).mpr ⟨rfl, rfl⟩, h⟩)

theorem rest (hm : Surely s m (.ok a)) {r : Except ε β} {t : Store}
    (h : (m >>= k).run.Runs .calm s r t) : (k a).run.Runs .calm s r t :=
  hm.runs_bind_iff.mp h

theorem bind {r : Except ε β} (hm : Surely s m (.ok a)) (hk : Surely s (k a) r) :
    Surely s (m >>= k) r :=
  fun r' t => hm.runs_bind_iff.trans (hk r' t)

theorem bind_error {e : ε} (hm : Surely s m (.error e)) : Surely s (m >>= k) (.error e) := by
  refine surely_of_forall fun r' t hrun => ?_
  rcases (runs_bindE m k).mp hrun with ⟨b, u, hb, -⟩ | ⟨e', he, rfl⟩
  · exact nomatch ((hm _ _).mp hb).1
  · obtain ⟨he', rfl⟩ := (hm _ _).mp he
    cases he'
    exact ⟨rfl, rfl⟩

theorem inPlace {m : StoreM α} {r : Except StoreError α} (hm : Surely s m r) (place : String) :
    Surely s (OperationM.inPlace place m) (r.mapError (Failure.ofStore place)) := by
  refine surely_of_forall fun r' t hrun => ?_
  rcases (runs_inPlace place m).mp hrun with ⟨a, ha, rfl⟩ | ⟨e, he, rfl⟩
  · obtain ⟨rfl, rfl⟩ := (hm _ _).mp ha
    exact ⟨rfl, rfl⟩
  · obtain ⟨rfl, rfl⟩ := (hm _ _).mp he
    exact ⟨rfl, rfl⟩

end Surely

theorem exists_surely_mapM {f : α → StoreM β} {as : List α}
    (h : ∀ a ∈ as, ∃ r, Surely s (f a) r) : ∃ r, Surely s (as.mapM f) r := by
  induction as with
  | nil => exact ⟨.ok [], fun _ _ => Iff.rfl⟩
  | cons a as ih =>
    rw [List.mapM_cons]
    obtain ⟨first, hfirst⟩ := h a List.mem_cons_self
    cases first with
    | error e => exact ⟨_, hfirst.bind_error⟩
    | ok b =>
      obtain ⟨rest, hrest⟩ := ih fun x hx => h x (List.mem_cons_of_mem a hx)
      cases rest with
      | error e => exact ⟨_, hfirst.bind hrest.bind_error⟩
      | ok bs => exact ⟨.ok (b :: bs), hfirst.bind (hrest.bind fun _ _ => Iff.rfl)⟩

/-! ### Reading, then writing -/

variable {P : Store → Prop}

/-- **A program ends** in a store with the property. -/
def Ends (w : Surroundings) (s : Store) (P : Store → Prop) (m : ExceptT ε Program α) : Prop :=
  ∀ r t, m.run.Runs w s r t → P t

theorem ends_of_quiet {m : ExceptT ε Program α} (hP : P s) (hq : m.run.Quiet) : Ends w s P m := by
  intro r t h
  obtain rfl := h.eq_of_quiet hq
  exact hP

/-- **Reading comes first**, and tells something of the store. -/
theorem Tells.ends {m : ExceptT ε Program α} {k : α → ExceptT ε Program β} (hm : Tells w s F Q m)
    (hP : P s) (hk : ∀ a, Q a → Ends w s P (k a)) : Ends w s P (m >>= k) := by
  intro r t h
  rcases (runs_bindE m k).mp h with ⟨a, u, ha, hka⟩ | ⟨e, he, -⟩
  · obtain ⟨rfl, hQ⟩ := hm _ _ ha
    exact hk a hQ r t hka
  · obtain ⟨rfl, -⟩ := hm _ _ he
    exact hP

theorem Ends.bind_quiet {m : ExceptT ε Program α} {k : α → ExceptT ε Program β} (hm : Ends w s P m)
    (hk : ∀ a, (k a).run.Quiet) : Ends w s P (m >>= k) := by
  intro r t h
  rcases (runs_bindE m k).mp h with ⟨a, u, ha, hka⟩ | ⟨e, he, -⟩
  · obtain rfl := hka.eq_of_quiet (hk a)
    exact hm _ _ ha
  · exact hm _ _ he

theorem Ends.inPlace {m : StoreM α} (hm : Ends w s P m) (place : String) :
    Ends w s P (OperationM.inPlace place m) := by
  intro r t h
  rcases (runs_inPlace place m).mp h with ⟨a, ha, -⟩ | ⟨e, he, -⟩
  · exact hm _ _ ha
  · exact hm _ _ he

/-- **Writing at last**, unless the operation was cancelled. -/
theorem ends_write {call : StoreCall} (hw : call.isWrite = true) (hP : P s)
    (h : ∀ answer t, s.Replies call answer t → P t) :
    Ends w s P (StoreM.check >>= fun _ => StoreM.call call) := by
  intro r t hr
  rcases (runs_bindE _ _).mp hr with ⟨_, u, hcheck, hcall⟩ | ⟨e, hcheck, -⟩
  · obtain ⟨-, rfl⟩ := runs_check.mp hcheck
    exact h _ _ (((runs_call call).mp hcall).replies hw)
  · obtain ⟨-, rfl⟩ := runs_check.mp hcheck
    exact hP

end Registrar
