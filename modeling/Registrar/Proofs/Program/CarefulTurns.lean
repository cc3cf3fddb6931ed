import Registrar.Proofs.Program.Careful
import Registrar.Proofs.Program.Interleaving

/-!
# Careful programs that share a store

A careful program writes once at most and is done after its write, and this stays so when other
programs have their turns in between. So in a history a write is the last turn of its program, and
the result of the program fits the answer to the write.

* `Program.Cautious`: what is left of a careful program.
* `History.cautious`: it stays so through every history.
* `History.ends_with_write`: a write is the last turn of its program.
* `History.pairwise_of_careful`: no program has a turn after its write.
-/

namespace Registrar

variable {α : Type} {w : Surroundings} {fits : Fitting α}

namespace Program

/-- **What is left of a careful program**: a careful program, or nothing but the write. -/
def Cautious (fits : Fitting α) (p : Program α) : Prop := p.Careful fits ∨ p.WritesLast fits

/-- **One turn**: it reads and leaves a cautious program, or it writes and leaves a result. -/
theorem Cautious.step {r : Request} {go : r.Answer → Program α} (h : (ask r go).Cautious fits)
    (answer : r.Answer) :
    (r.isQuiet = true ∧ (go answer).Cautious fits) ∨
      ∃ call answer' a, (⟨r, answer⟩ : Exchange) = ⟨.store call, answer'⟩ ∧ call.isWrite = true ∧
        go answer = .done a ∧ fits call answer' a := by
  rcases h with ⟨hr, hnext⟩ | hlast
  · exact .inl ⟨hr, (hnext answer).imp id And.right⟩
  · cases r with
    | store call =>
      obtain ⟨hw, hfits⟩ := hlast
      obtain ⟨a, ha, hfit⟩ := hfits answer
      exact .inr ⟨call, answer, a, rfl, hw, ha, hfit⟩
    | _ => exact hlast.elim

end Program

namespace Pool

variable {p : Pool α} {e : Event α} {τ : List (Event α)} {i : Nat} {fits : Nat → Fitting α}

theorem History.done {a : α} (h : p.History w τ) (hi : p.programs i = .done a) :
    (∀ x ∈ τ, x.actor ≠ i) ∧ (p.after τ).programs i = .done a := by
  induction h with
  | nil p => exact ⟨by simp, hi⟩
  | @cons p x τ step rest ih =>
    have hx : x.actor ≠ i := by
      rintro rfl
      obtain ⟨go, hask, -⟩ := step.asks
      rw [hask] at hi
      cases hi
    obtain ⟨hτ, hdone⟩ := ih ((programs_next_of_ne hx).trans hi)
    exact ⟨List.forall_mem_cons.mpr ⟨hx, hτ⟩, hdone⟩

/-- **A turn of cautious programs** leaves them cautious, and if it writes, a result is left. -/
theorem Step.cautious (h : p.Step w e) (hp : ∀ i, (p.programs i).Cautious (fits i)) :
    (∀ i, ((p.next e).programs i).Cautious (fits i)) ∧
      (e.exchange.1.isQuiet = false → ∃ call answer a, e.exchange = ⟨.store call, answer⟩ ∧
        call.isWrite = true ∧ e.rest = .done a ∧ fits e.actor call answer a) := by
  obtain ⟨go, hask, hrest⟩ := h.asks
  have hactor := hp e.actor
  rw [hask] at hactor
  have hnext : e.rest.Cautious (fits e.actor) →
      ∀ i, ((p.next e).programs i).Cautious (fits i) := by
    intro hcautious i
    by_cases hi : e.actor = i
    · subst hi
      rw [programs_next_self]
      exact hcautious
    · rw [programs_next_of_ne hi]
      exact hp i
  rcases hactor.step e.exchange.2 with ⟨hq, hcautious⟩ | ⟨call, answer, a, he, hw, ha, hfit⟩
  · refine ⟨hnext (hrest ▸ hcautious), fun hnot => ?_⟩
    rw [hq] at hnot
    cases hnot
  · refine ⟨hnext ?_, fun _ => ⟨call, answer, a, he, hw, hrest.trans ha, hfit⟩⟩
    rw [hrest, ha]
    exact .inl trivial

/-- **Cautious programs stay cautious.** -/
theorem History.cautious (h : p.History w τ) (hp : ∀ i, (p.programs i).Cautious (fits i)) :
    ∀ i, ((p.after τ).programs i).Cautious (fits i) :=
  h.invariant (P := fun p => ∀ i, (p.programs i).Cautious (fits i)) hp
    fun _ _ _ hp hstep => (hstep.cautious hp).1

/-- **A write is the last turn of its program**, whose result fits the answer. -/
theorem History.ends_with_write {σ υ : List (Event α)} (h : p.History w (σ ++ e :: υ))
    (hp : ∀ i, (p.programs i).Cautious (fits i)) (hq : e.exchange.1.isQuiet = false) :
    ∃ call answer a, e.exchange = ⟨.store call, answer⟩ ∧ call.isWrite = true ∧
      fits e.actor call answer a ∧ (∀ x ∈ υ, x.actor ≠ e.actor) ∧
        (p.after (σ ++ e :: υ)).programs e.actor = .done a := by
  obtain ⟨hσ, hrest⟩ := history_append.mp h
  obtain ⟨hstep, hυ⟩ := history_cons.mp hrest
  obtain ⟨call, answer, a, he, hw, ha, hfit⟩ := (hstep.cautious (hσ.cautious hp)).2 hq
  obtain ⟨hothers, hdone⟩ := hυ.done ((programs_next_self _ e).trans ha)
  refine ⟨call, answer, a, he, hw, hfit, hothers, ?_⟩
  rw [after, List.foldl_append, List.foldl_cons]
  exact hdone

/-- **No program has a turn after its write.** -/
theorem History.pairwise_of_careful (h : p.History w τ)
    (hp : ∀ i, (p.programs i).Cautious (fits i)) :
    τ.Pairwise fun x y => x.exchange.1.isQuiet = false → y.actor ≠ x.actor := by
  induction h with
  | nil p => exact .nil
  | @cons p e τ step rest ih =>
    refine .cons (fun y hy hq => ?_) (ih (step.cautious hp).1)
    obtain ⟨-, -, -, -, -, -, hothers, -⟩ :=
      History.ends_with_write (σ := []) (.cons step rest) hp hq
    exact hothers y hy

end Pool

end Registrar
