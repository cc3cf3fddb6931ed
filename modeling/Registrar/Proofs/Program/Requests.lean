import Registrar.Proofs.Program.Runs

/-!
# The requests of a program

Some facts about an operation do not depend on the answers that it gets: whatever it is told, it
asks only for certain things. `Program.Always` says so of a whole program. A **quiet** program never
asks for a change of the store; it reads, draws ids, and looks at the clock.

* `Program.Always`: every request that a program may make has a property.
* `Program.Results`, `Program.Yields`: so has every result, or every result that is no failure.
* `Program.Quiet`: a program changes nothing.
* `Runs.eq_of_quiet`: a quiet program leaves the store as it is.
* `Runs.invariant`: what every reply to a request keeps, a run keeps.
-/

namespace Registrar

/-- The requests that change no store. -/
def Request.isQuiet : Request → Bool
  | .store call => !call.isWrite
  | .isCancelled | .newId | .now => true

theorem Surroundings.Reply.eq_of_isQuiet {w : Surroundings} {s t : Store} {r : Request}
    {a : r.Answer} (h : w.Reply s r a t) (hq : r.isQuiet = true) : t = s := by
  cases r with
  | store call =>
    have hw : call.isWrite = false := by simpa [Request.isQuiet] using hq
    rcases h with h | ⟨-, -, -, ht⟩
    · exact h.eq_of_not_isWrite hw
    · exact ht
  | isCancelled => exact h.2
  | newId => exact h.2
  | now => exact h

namespace Program

variable {α β : Type} {φ ψ : Request → Prop}

/-- **Every request that a program may make has the property.** -/
def Always (φ : Request → Prop) : Program α → Prop
  | .done _ => True
  | .ask r next => φ r ∧ ∀ answer, Always φ (next answer)

/-- **Every result that a program may have has the property.** -/
def Results (ψ : α → Prop) : Program α → Prop
  | .done a => ψ a
  | .ask _ next => ∀ answer, Results ψ (next answer)

/-- Every result that is no failure has the property. -/
def Yields {ε : Type} (ψ : α → Prop) (p : Program (Except ε α)) : Prop :=
  p.Results fun r => ∀ a, r = .ok a → ψ a

/-- **A program changes nothing.** -/
def Quiet (p : Program α) : Prop := p.Always fun r => r.isQuiet = true

theorem Always.mono {p : Program α} (h : p.Always φ) (hφ : ∀ r, φ r → ψ r) : p.Always ψ := by
  induction p with
  | done a => exact trivial
  | ask r next ih => exact ⟨hφ r h.1, fun answer => ih answer (h.2 answer)⟩

theorem always_bind {p : Program α} {f : α → Program β} (hp : p.Always φ)
    (hf : ∀ a, (f a).Always φ) : (bind p f).Always φ := by
  induction p with
  | done a => exact hf a
  | ask r next ih => exact ⟨hp.1, fun answer => ih answer (hp.2 answer)⟩

theorem Results.mono {ψ χ : α → Prop} {p : Program α} (h : p.Results ψ)
    (hψ : ∀ a, ψ a → χ a) : p.Results χ := by
  induction p with
  | done a => exact hψ a h
  | ask r next ih => exact fun answer => ih answer (h answer)

theorem results_bind {ψ : α → Prop} {χ : β → Prop} {p : Program α} {f : α → Program β}
    (hp : p.Results ψ) (hf : ∀ a, ψ a → (f a).Results χ) : (bind p f).Results χ := by
  induction p with
  | done a => exact hf a hp
  | ask r next ih => exact fun answer => ih answer (hp answer)

/-- The requests after a part of a program, which may rely on the result of this part. -/
theorem Results.always_bind {χ : α → Prop} {p : Program α} {f : α → Program β} (hr : p.Results χ)
    (hp : p.Always φ) (hf : ∀ a, χ a → (f a).Always φ) : (bind p f).Always φ := by
  induction p with
  | done a => exact hf a hr
  | ask r next ih => exact ⟨hp.1, fun answer => ih answer (hr answer) (hp.2 answer)⟩

theorem Runs.results {w : Surroundings} {ψ : α → Prop} {p : Program α} {s t : Store} {a : α}
    (h : p.Runs w s a t) (hp : p.Results ψ) : ψ a := by
  induction p generalizing s with
  | done b => obtain ⟨rfl, -⟩ := h; exact hp
  | ask r next ih =>
    obtain ⟨answer, u, -, hn⟩ := h
    exact ih answer hn (hp answer)

theorem Runs.eq_of_quiet {w : Surroundings} {p : Program α} {s t : Store} {a : α}
    (h : p.Runs w s a t) (hp : p.Quiet) : t = s := by
  induction p generalizing s with
  | done b => exact h.2
  | ask r next ih =>
    obtain ⟨answer, u, hr, hn⟩ := h
    obtain rfl := hr.eq_of_isQuiet hp.1
    exact ih answer hn (hp.2 answer)

/-- **What every reply keeps, a run keeps.** -/
theorem Runs.invariant {w : Surroundings} {I : Store → Prop} {p : Program α} {s t : Store} {a : α}
    (h : p.Runs w s a t) (hp : p.Always φ)
    (hI : ∀ r answer s t, φ r → w.Reply s r answer t → I s → I t) (hs : I s) : I t := by
  induction p generalizing s with
  | done b => exact h.2 ▸ hs
  | ask r next ih =>
    obtain ⟨answer, u, hr, hn⟩ := h
    exact ih answer hn (hp.2 answer) (hI r answer s u hp.1 hr hs)

end Program

/-! ### Programs that fail -/

section

open Program

variable {ε α β : Type} {φ : Request → Prop}

theorem always_bindE {m : ExceptT ε Program α} {k : α → ExceptT ε Program β}
    (hm : m.run.Always φ) (hk : ∀ a, (k a).run.Always φ) : (m >>= k).run.Always φ := by
  refine always_bind hm fun r => ?_
  cases r with
  | ok a => exact hk a
  | error e => exact trivial

theorem always_pureE (a : α) : (pure a : ExceptT ε Program α).run.Always φ := trivial

theorem always_throwE (e : ε) : (throw e : ExceptT ε Program α).run.Always φ := trivial

theorem always_inPlace {place : String} {p : StoreM α} (hp : p.run.Always φ) :
    (OperationM.inPlace place p).run.Always φ := by
  refine always_bind hp fun r => ?_
  cases r <;> exact trivial

theorem always_ofProgram {p : Program α} (hp : p.Always φ) :
    (OperationM.ofProgram p).run.Always φ :=
  always_bind hp fun _ => trivial

theorem always_ofExcept (e : Except StoreError α) : (StoreM.ofExcept e).run.Always φ := trivial

theorem always_call {c : StoreCall} (h : φ (.store c)) : (StoreM.call c).run.Always φ :=
  ⟨h, fun _ => trivial⟩

theorem always_bindE_of_yields {ψ : α → Prop} {m : ExceptT ε Program α}
    {k : α → ExceptT ε Program β} (hy : m.run.Yields ψ) (hm : m.run.Always φ)
    (hk : ∀ a, ψ a → (k a).run.Always φ) : (m >>= k).run.Always φ := by
  refine Results.always_bind hy hm fun r hr => ?_
  cases r with
  | ok a => exact hk a (hr a rfl)
  | error e => exact trivial

/-! ### Results -/

theorem yields_bindE {ψ : α → Prop} {χ : β → Prop} {m : ExceptT ε Program α}
    {k : α → ExceptT ε Program β} (hm : m.run.Yields ψ) (hk : ∀ a, ψ a → (k a).run.Yields χ) :
    (m >>= k).run.Yields χ := by
  refine results_bind hm fun r hr => ?_
  cases r with
  | ok a => exact hk a (hr a rfl)
  | error e => exact fun b hb => by cases hb

theorem yields_pureE {ψ : α → Prop} {a : α} (h : ψ a) :
    (pure a : ExceptT ε Program α).run.Yields ψ := by
  intro b hb
  cases hb
  exact h

theorem yields_throwE (ψ : α → Prop) (e : ε) : (throw e : ExceptT ε Program α).run.Yields ψ := by
  intro b hb
  cases hb

theorem yields_trivial (p : Program (Except ε α)) : p.Yields fun _ => True := by
  induction p with
  | done r => exact fun _ _ => trivial
  | ask r next ih => exact ih

theorem yields_inPlace {ψ : α → Prop} {place : String} {p : StoreM α} (hp : p.run.Yields ψ) :
    (OperationM.inPlace place p).run.Yields ψ := by
  refine results_bind hp fun r hr => ?_
  cases r with
  | ok a => exact fun b hb => by cases hb; exact hr a rfl
  | error e => exact fun b hb => by cases hb

theorem yields_ofProgram {ψ : α → Prop} {p : Program α} (hp : p.Results ψ) :
    (OperationM.ofProgram p).run.Yields ψ :=
  results_bind hp fun a ha b hb => by cases hb; exact ha

/-! ### Quiet parts -/

theorem quiet_check : StoreM.check.run.Quiet := ⟨rfl, fun _ => trivial⟩

theorem quiet_guarded {p : StoreM α} (hp : p.run.Quiet) : (StoreM.guarded p).run.Quiet :=
  always_bindE quiet_check fun _ => hp

theorem quiet_find (query : Query) (name : String) : (StoreM.find query name).run.Quiet :=
  always_call rfl

theorem quiet_count (filter : Option Filter) (name : String) :
    (StoreM.count filter name).run.Quiet :=
  always_call rfl

theorem quiet_ofDraws (d : Draws α) : (ofDraws d).Quiet := by
  induction d with
  | done a => exact trivial
  | draw next ih => exact ⟨rfl, ih⟩

end

end Registrar
