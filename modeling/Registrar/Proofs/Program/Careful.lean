import Registrar.Proofs.Program.Requests

/-!
# Programs that write once

A **careful** program writes at most once. It asks whether it was cancelled right before, writes
only if it was not, and is done after the write, with a result that fits the answer. To say so of a
run, the run is told together with its **exchanges**, the requests and their answers.

* `Exchange`, `Program.Exchanges`: runs, told with what was exchanged.
* `WroteOnce`: the exchanges of a careful program.
* `Program.Careful`: careful programs.
* `careful_bindE`, `careful_write`: a sequence is careful if it reads first and writes at last.
* `Careful.exchanges_cases`: what a run of a careful program exchanges, and the store it leaves.
* `WroteOnce.quiet_of_cancels`: nothing is written after a cancellation that stays.
-/

namespace Registrar

/-- **A request with its answer.** -/
abbrev Exchange := (r : Request) × r.Answer

/-- The exchange asks nothing but whether the program was cancelled, and it was not. -/
def Exchange.goesOn : Exchange := ⟨.isCancelled, false⟩

/-- The program learns that it was cancelled. -/
def Exchange.cancels : Exchange := ⟨.isCancelled, true⟩

namespace Program

variable {α β : Type} {w : Surroundings} {s t : Store} {l : List Exchange} {a : α}

/-- **The runs of a program**, with what was exchanged. -/
def Exchanges (w : Surroundings) : Program α → Store → List Exchange → α → Store → Prop
  | .done a, s, l, b, t => l = [] ∧ b = a ∧ t = s
  | .ask r next, s, l, b, t => ∃ answer u l', l = ⟨r, answer⟩ :: l' ∧ w.Reply s r answer u ∧
      Exchanges w (next answer) u l' b t

theorem Exchanges.runs {p : Program α} (h : p.Exchanges w s l a t) : p.Runs w s a t := by
  induction p generalizing s l with
  | done b => exact h.2
  | ask r next ih =>
    obtain ⟨answer, u, l', -, hreply, hrest⟩ := h
    exact ⟨answer, u, hreply, ih answer hrest⟩

/-- **Every run exchanges something.** -/
theorem Runs.exchanges {p : Program α} (h : p.Runs w s a t) : ∃ l, p.Exchanges w s l a t := by
  induction p generalizing s with
  | done b => exact ⟨[], rfl, h⟩
  | ask r next ih =>
    obtain ⟨answer, u, hreply, hrest⟩ := h
    obtain ⟨l, hl⟩ := ih answer hrest
    exact ⟨_, answer, u, l, rfl, hreply, hl⟩

theorem Exchanges.eq_of_quiet {p : Program α} (h : p.Exchanges w s l a t)
    (hl : ∀ x ∈ l, x.1.isQuiet = true) : t = s := by
  induction p generalizing s l with
  | done b => exact h.2.2
  | ask r next ih =>
    obtain ⟨answer, u, l', rfl, hreply, hrest⟩ := h
    rw [List.forall_mem_cons] at hl
    obtain rfl := hreply.eq_of_isQuiet hl.1
    exact ih answer hrest hl.2

end Program

/-- **At most one write**, at last, and made right after the program was found not to be
cancelled. -/
inductive WroteOnce : List Exchange → Prop where
  | reads {l : List Exchange} (quiet : ∀ x ∈ l, x.1.isQuiet = true) : WroteOnce l
  | writes {l : List Exchange} (quiet : ∀ x ∈ l, x.1.isQuiet = true) {call : StoreCall}
      (isWrite : call.isWrite = true) (answer : Except StoreError call.Result) :
      WroteOnce (l ++ [Exchange.goesOn, ⟨.store call, answer⟩])

/-- **Cancellation is for good**: once a program was cancelled, it stays so. -/
def Steady (l : List Exchange) : Prop :=
  ∀ l₁ l₂, l = l₁ ++ Exchange.cancels :: l₂ → Exchange.goesOn ∉ l₂

/-- Which results fit the answer to a call. -/
abbrev Fitting (α : Type) := (call : StoreCall) → Except StoreError call.Result → α → Prop

namespace Program

variable {α β : Type} {w : Surroundings} {s t : Store} {l : List Exchange} {a : α}
  {fits : Fitting α}

/-- A write, after which the program is done with a result that fits. -/
def WritesLast (fits : Fitting α) : Program α → Prop
  | .ask (.store call) next =>
    call.isWrite = true ∧ ∀ answer, ∃ a, next answer = .done a ∧ fits call answer a
  | _ => False

/-- **A careful program.** -/
def Careful (fits : Fitting α) : Program α → Prop
  | .done _ => True
  | .ask r next => r.isQuiet = true ∧ ∀ answer, Careful fits (next answer) ∨
      (⟨r, answer⟩ : Exchange) = Exchange.goesOn ∧ WritesLast fits (next answer)

theorem careful_of_quiet {p : Program α} (h : p.Quiet) : p.Careful fits := by
  induction p with
  | done a => exact trivial
  | ask r next ih => exact ⟨h.1, fun answer => .inl (ih answer (h.2 answer))⟩

theorem careful_bind {p : Program α} {f : α → Program β} {fits : Fitting β} (hp : p.Quiet)
    (hf : ∀ a, (f a).Careful fits) : (bind p f).Careful fits := by
  induction p with
  | done a => exact hf a
  | ask r next ih => exact ⟨hp.1, fun answer => .inl (ih answer (hp.2 answer))⟩

theorem Careful.bind_done {p : Program α} {f : α → Program β} {fits' : Fitting β}
    (hp : p.Careful fits)
    (hf : ∀ a, ∃ b, f a = .done b ∧ ∀ call answer, fits call answer a → fits' call answer b) :
    (bind p f).Careful fits' := by
  induction p with
  | done a =>
    obtain ⟨b, hb, -⟩ := hf a
    rw [done_bind, hb]
    exact trivial
  | ask r next ih =>
    refine ⟨hp.1, fun answer => (hp.2 answer).imp (ih answer) fun ⟨hgoes, hlast⟩ => ⟨hgoes, ?_⟩⟩
    change WritesLast fits' (bind (next answer) f)
    revert hlast
    generalize next answer = q
    intro hlast
    match q with
    | .ask (.store call) next' =>
      refine ⟨hlast.1, fun answer' => ?_⟩
      obtain ⟨a, ha, hfits⟩ := hlast.2 answer'
      obtain ⟨b, hb, hfits'⟩ := hf a
      refine ⟨b, ?_, hfits' call answer' hfits⟩
      change bind (next' answer') f = done b
      rw [ha, done_bind, hb]

/-- **What a careful program exchanges**: it only reads and leaves the store as it is, or it writes
once, and its result fits the answer. -/
theorem Careful.exchanges_cases {p : Program α} (hp : p.Careful fits) (h : p.Exchanges w s l a t) :
    (∀ x ∈ l, x.1.isQuiet = true) ∧ t = s ∨
      ∃ l' call answer, l = l' ++ [Exchange.goesOn, ⟨.store call, answer⟩] ∧
        (∀ x ∈ l', x.1.isQuiet = true) ∧ call.isWrite = true ∧ s.Replies call answer t ∧
          fits call answer a := by
  -- The store stays the same up to the write, and nothing comes after it.
  induction p generalizing s l with
  | done b => exact .inl ⟨by simp [h.1], h.2.2⟩
  | ask r next ih =>
    obtain ⟨hr, hnext⟩ := hp
    obtain ⟨answer, u, rest, rfl, hreply, hrest⟩ := h
    obtain rfl := hreply.eq_of_isQuiet hr
    rcases hnext answer with hnext | ⟨hgoes, hnext⟩
    · rcases ih answer hnext hrest with ⟨hquiet, rfl⟩ | ⟨l', call, answer', rfl, hquiet, hcall⟩
      · exact .inl ⟨List.forall_mem_cons.mpr ⟨hr, hquiet⟩, rfl⟩
      · exact .inr ⟨_ :: l', call, answer', rfl, List.forall_mem_cons.mpr ⟨hr, hquiet⟩, hcall⟩
    · rw [hgoes]
      revert hnext hrest
      generalize next answer = p
      intro hrest hnext
      match p with
      | .ask (.store call) next' =>
        obtain ⟨answer', v, l', rfl, hreply', hdone⟩ := hrest
        obtain ⟨hw, hfits⟩ := hnext
        obtain ⟨b, hb, hfits⟩ := hfits answer'
        rw [hb] at hdone
        obtain ⟨rfl, rfl, rfl⟩ := hdone
        exact .inr ⟨[], call, answer', rfl, by simp, hw, hreply'.replies hw, hfits⟩

theorem Careful.wroteOnce {p : Program α} (hp : p.Careful fits) (h : p.Exchanges w s l a t) :
    WroteOnce l := by
  rcases hp.exchanges_cases h with ⟨hquiet, -⟩ | ⟨l', call, answer, rfl, hquiet, hw, -⟩
  · exact .reads hquiet
  · exact .writes hquiet hw answer

end Program

/-! ### Programs that fail -/

section

open Program

variable {ε α β : Type}

theorem careful_bindE {fits : Fitting (Except ε β)} {m : ExceptT ε Program α}
    {k : α → ExceptT ε Program β} (hm : m.run.Quiet) (hk : ∀ a, (k a).run.Careful fits) :
    (m >>= k).run.Careful fits := by
  refine careful_bind hm fun r => ?_
  cases r with
  | ok a => exact hk a
  | error e => exact trivial

theorem careful_mapE {fits : Fitting (Except ε α)} {fits' : Fitting (Except ε β)}
    {m : ExceptT ε Program α} (hm : m.run.Careful fits) (g : α → β)
    (h : ∀ call answer r, fits call answer r → fits' call answer (r.map g)) :
    (m >>= fun a => pure (g a)).run.Careful fits' := by
  refine hm.bind_done fun r => ?_
  cases r with
  | ok a => exact ⟨_, rfl, fun call answer => h call answer _⟩
  | error e => exact ⟨_, rfl, fun call answer => h call answer _⟩

/-- **A write at last**, unless the program was cancelled. -/
theorem careful_write {fits : Fitting (Except Failure β)} {call : StoreCall} {place : String}
    {k : call.Result → OperationM β} (hw : call.isWrite = true)
    (hok : ∀ a, ∃ r, (k a).run = .done r ∧ fits call (.ok a) r)
    (herror : ∀ e, fits call (.error e) (.error (.ofStore place e))) :
    (OperationM.inPlace place (StoreM.check >>= fun _ => StoreM.call call) >>= k).run.Careful
      fits := by
  refine ⟨rfl, fun cancelled => ?_⟩
  cases cancelled with
  | true => exact .inl trivial
  | false =>
    refine .inr ⟨rfl, hw, fun answer => ?_⟩
    cases answer with
    | ok a => exact hok a
    | error e => exact ⟨_, rfl, herror e⟩

end

/-! ### What was exchanged -/

namespace WroteOnce

variable {l : List Exchange}

/-- A steady cancellation comes before no write. -/
theorem quiet_of_cancels (h : WroteOnce l) (hsteady : Steady l) (hc : Exchange.cancels ∈ l) :
    ∀ x ∈ l, x.1.isQuiet = true := by
  cases h with
  | reads quiet => exact quiet
  | @writes l' quiet call isWrite answer =>
    exfalso
    have hmem : Exchange.cancels ∈ l' := by
      rcases List.mem_append.mp hc with hmem | hmem
      · exact hmem
      · rcases List.mem_cons.mp hmem with heq | hmem
        · exact nomatch heq
        · exact nomatch List.mem_singleton.mp hmem
    obtain ⟨l₁, l₂, rfl⟩ := List.append_of_mem hmem
    refine hsteady l₁ (l₂ ++ [Exchange.goesOn, ⟨.store call, answer⟩]) (by simp) ?_
    exact List.mem_append_right _ List.mem_cons_self

end WroteOnce

end Registrar
