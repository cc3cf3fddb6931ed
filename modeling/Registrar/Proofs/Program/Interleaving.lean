import Registrar.Proofs.Program.Requests
import Mathlib.Logic.Function.Basic

/-!
# Programs that share a store

Several programs run at once on one store. Each serves its turn by making one request, and the
turns come in any order. What happens is a **history**, a list of events, each of which says whose
turn it was, what was requested and answered, and what the store was before and after.

* `Event`, `Pool.Step`, `Pool.History`: turns, and lists of turns.
* `history_append`: a history is cut at any place.
* `History.step`: an event of a history is a step of the pool in which it happens.
* `History.invariant`: what every step preserves holds to the end.
* `Pool.play`, `history_play`: every order of turns has a history.
-/

namespace Registrar

/-- **A turn of one of several programs**: the request with its answer, the store before and after,
and what the program has still to do. -/
structure Event (α : Type) where
  actor : Nat
  before : Store
  exchange : (r : Request) × r.Answer
  after : Store
  rest : Program α

/-- **Programs that share a store**, by number. -/
structure Pool (α : Type) where
  store : Store
  programs : Nat → Program α

namespace Pool

variable {α : Type} {w : Surroundings}

/-- The pool after a turn. -/
def next (p : Pool α) (e : Event α) : Pool α :=
  ⟨e.after, Function.update p.programs e.actor e.rest⟩

/-- **One turn**: a program makes its request and goes on with the answer. -/
structure Step (w : Surroundings) (p : Pool α) (e : Event α) : Prop where
  before : e.before = p.store
  asks : ∃ go, p.programs e.actor = .ask e.exchange.1 go ∧ e.rest = go e.exchange.2
  reply : w.Reply e.before e.exchange.1 e.exchange.2 e.after

/-- **A history**: turns in any order. -/
inductive History (w : Surroundings) : Pool α → List (Event α) → Prop
  | nil (p : Pool α) : History w p []
  | cons {p : Pool α} {e : Event α} {τ : List (Event α)} (step : p.Step w e)
      (rest : History w (p.next e) τ) : History w p (e :: τ)

/-- The pool after several turns. -/
def after (p : Pool α) (τ : List (Event α)) : Pool α := τ.foldl next p

@[simp] theorem after_nil (p : Pool α) : p.after [] = p := rfl

theorem history_append {p : Pool α} {σ τ : List (Event α)} :
    p.History w (σ ++ τ) ↔ p.History w σ ∧ (p.after σ).History w τ := by
  induction σ generalizing p with
  | nil => exact ⟨fun h => ⟨.nil p, h⟩, And.right⟩
  | cons e σ ih =>
    constructor
    · intro h
      cases h with
      | cons step rest =>
        obtain ⟨hσ, hτ⟩ := ih.mp rest
        exact ⟨.cons step hσ, hτ⟩
    · rintro ⟨hσ, hτ⟩
      cases hσ with
      | cons step rest => exact .cons step (ih.mpr ⟨rest, hτ⟩)

theorem history_cons {p : Pool α} {e : Event α} {τ : List (Event α)} :
    p.History w (e :: τ) ↔ p.Step w e ∧ (p.next e).History w τ := by
  constructor
  · intro h
    cases h with
    | cons step rest => exact ⟨step, rest⟩
  · rintro ⟨step, rest⟩
    exact .cons step rest

theorem History.step {p : Pool α} {σ τ : List (Event α)} {e : Event α}
    (h : p.History w (σ ++ e :: τ)) : (p.after σ).Step w e :=
  (history_cons.mp (history_append.mp h).2).1

/-- **What every step preserves** holds after every history. -/
theorem History.invariant {P : Pool α → Prop} {p : Pool α} {τ : List (Event α)}
    (h : p.History w τ) (hp : P p)
    (hstep : ∀ p e, e ∈ τ → P p → p.Step w e → P (p.next e)) : P (p.after τ) := by
  induction h with
  | nil p => exact hp
  | cons step rest ih =>
    exact ih (hstep _ _ List.mem_cons_self hp step) fun p e he => hstep p e (List.mem_cons_of_mem _ he)

theorem programs_next_of_ne {p : Pool α} {e : Event α} {i : Nat} (h : e.actor ≠ i) :
    (p.next e).programs i = p.programs i :=
  Function.update_of_ne (Ne.symm h) _ _

theorem programs_next_self (p : Pool α) (e : Event α) :
    (p.next e).programs e.actor = e.rest :=
  Function.update_self _ _ _

/-- **Requests of programs that share a store** keep to what each program may request. -/
theorem Step.always_next {φ : Request → Prop} {p : Pool α} {e : Event α} (h : p.Step w e)
    (hp : ∀ i, (p.programs i).Always φ) :
    φ e.exchange.1 ∧ ∀ i, ((p.next e).programs i).Always φ := by
  obtain ⟨go, hask, hrest⟩ := h.asks
  have ha := hp e.actor
  rw [hask] at ha
  refine ⟨ha.1, fun i => ?_⟩
  by_cases hi : e.actor = i
  · subst hi
    rw [programs_next_self, hrest]
    exact ha.2 _
  · rw [programs_next_of_ne hi]
    exact hp i

/-! ### Playing turns -/

/-- An answer to a request, when nothing disturbs it. -/
def plainAnswer (s : Store) : (r : Request) → r.Answer × Store
  | .store call => s.serve call
  | .isCancelled => (false, s)
  | .newId => (.nil, s)
  | .now => ((0 : Int64), s)

theorem reply_plainAnswer (hw : w.draws .nil) (s : Store) (r : Request) :
    w.Reply s r (plainAnswer s r).1 (plainAnswer s r).2 := by
  cases r with
  | store call => exact .inl (s.replies_serve call)
  | isCancelled => exact ⟨nofun, rfl⟩
  | newId => exact ⟨hw, rfl⟩
  | now => exact rfl

/-- The turn of a program, unless it is done. -/
def turn? (p : Pool α) (i : Nat) : Option (Event α) :=
  match p.programs i with
  | .done _ => none
  | .ask r go =>
    some ⟨i, p.store, ⟨r, (plainAnswer p.store r).1⟩, (plainAnswer p.store r).2,
      go (plainAnswer p.store r).1⟩

/-- **Turns in a given order.** -/
def play (p : Pool α) : List Nat → List (Event α)
  | [] => []
  | i :: is =>
    match p.turn? i with
    | some e => e :: (p.next e).play is
    | none => p.play is

theorem step_of_turn? (hw : w.draws .nil) {p : Pool α} {i : Nat} {e : Event α}
    (h : p.turn? i = some e) : p.Step w e := by
  rw [turn?] at h
  split at h
  · cases h
  · rename_i r go hp
    cases h
    exact ⟨rfl, ⟨go, hp, rfl⟩, reply_plainAnswer hw p.store r⟩

/-- **Every order of turns has a history.** -/
theorem history_play (hw : w.draws .nil) (is : List Nat) (p : Pool α) :
    p.History w (p.play is) := by
  induction is generalizing p with
  | nil => exact .nil p
  | cons i is ih =>
    rw [play]
    split
    · rename_i e he
      exact .cons (step_of_turn? hw he) (ih _)
    · exact ih p

end Pool

end Registrar
