import Registrar.Proofs.Program.Careful
import Mathlib.Data.List.Forall2

/-!
# Programs that keep the store's words to themselves

The text of a store error comes from the inside of a store. A program is **discreet** if this text
shows in nothing but the detail of its failure: if the calls that fail do so in other words, then
the program asks the same things afterwards and has the same result, up to words that are not shown.
One relation on programs says so, and is passed on by one rule for each way of putting programs
together.

* `StoreError.withoutText`, `Failure.withoutDetail`: what is left when the words are taken away.
* `Program.Alike`: two programs that differ in the words of their failures only.
* `Discreet`: a program that is alike to itself when it is answered in other words.
* `Program.Replays`: what a program does when it is told all answers beforehand, by any store.
* `Alike.replays`: answers in other words lead to a result in other words.
-/

namespace Registrar

/-! ### Words -/

namespace StoreError

/-- **A store error without the store's own text.** -/
def withoutText : StoreError → StoreError
  | .serialization _ => .serialization ""
  | .initialization _ => .initialization ""
  | .invalidDocument _ => .invalidDocument ""
  | .write _ => .write ""
  | .backend _ => .backend ""
  | e => e

end StoreError

namespace Failure

/-- **A failure without its detail.** -/
def withoutDetail : Failure → Failure
  | .genericWriteFailure text _ => .genericWriteFailure text ""
  | e => e

/-- **Callers are told of the kind of a store error**, and its text goes into the detail. -/
theorem withoutDetail_ofStore (place : String) {e e' : StoreError}
    (h : e.withoutText = e'.withoutText) :
    (ofStore place e).withoutDetail = (ofStore place e').withoutDetail := by
  cases e <;> cases e' <;> first | rfl | (cases h; rfl) | cases h

end Failure

namespace Outcome

variable {α : Type}

/-- What the caller of an operation is shown; the detail is kept for the log. -/
def withoutDetail (o : Outcome α) : Outcome α := { o with errorDetail := none }

theorem withoutDetail_ofExcept {r r' : Except Failure α}
    (h : r.mapError Failure.withoutDetail = r'.mapError Failure.withoutDetail) :
    (ofExcept r).withoutDetail = (ofExcept r').withoutDetail := by
  cases r with
  | ok a =>
    cases r' with
    | ok b => cases h; rfl
    | error e' => cases h
  | error e =>
    cases r' with
    | ok b => cases h
    | error e' =>
      have he : e.withoutDetail = e'.withoutDetail := Except.error.inj h
      cases e <;> cases e' <;> first | rfl | (cases he; rfl) | cases he

end Outcome

/-- **Two answers to a request that differ in the words of a failure only.** -/
def Request.Reworded : (r : Request) → r.Answer → r.Answer → Prop
  | .store _, a, b => a.mapError StoreError.withoutText = b.mapError StoreError.withoutText
  | .isCancelled, a, b => a = b
  | .newId, a, b => a = b
  | .now, a, b => a = b

theorem Request.reworded_refl (r : Request) (a : r.Answer) : r.Reworded a a := by
  cases r <;> rfl

/-- Two exchanges of one request that differ in the words of a failure only. -/
inductive Exchange.Reworded : Exchange → Exchange → Prop where
  | mk {r : Request} {a b : r.Answer} (answers : r.Reworded a b) : Reworded ⟨r, a⟩ ⟨r, b⟩

/-! ### Programs -/

namespace Program

variable {α β γ δ : Type} {tell : α → γ} {say : β → δ}

/-- **Two programs that differ in words only**: answered in other words, they make the same requests
and tell the same in the end. -/
inductive Alike (tell : α → γ) : Program α → Program α → Prop where
  | done {a b : α} (told : tell a = tell b) : Alike tell (.done a) (.done b)
  | ask {r : Request} {next next' : r.Answer → Program α}
    (answered : ∀ a b, r.Reworded a b → Alike tell (next a) (next' b)) :
    Alike tell (.ask r next) (.ask r next')

theorem Alike.bind {p q : Program α} {f g : α → Program β} (h : p.Alike tell q)
    (hf : ∀ a b, tell a = tell b → (f a).Alike say (g b)) :
    (Program.bind p f).Alike say (Program.bind q g) := by
  induction h with
  | done told => exact hf _ _ told
  | ask answered ih => exact .ask fun a b hab => ih a b hab

/-- **What a program does when it is told all answers beforehand**: it makes the listed requests,
has the listed answers, and ends with the result. -/
def Replays : Program α → List Exchange → α → Prop
  | .done a, l, b => l = [] ∧ b = a
  | .ask r next, l, b => ∃ answer rest, l = ⟨r, answer⟩ :: rest ∧ Replays (next answer) rest b

theorem Replays.eq {p : Program α} {l : List Exchange} {a b : α} (ha : p.Replays l a)
    (hb : p.Replays l b) : a = b := by
  induction p generalizing l with
  | done c => exact ha.2.trans hb.2.symm
  | ask r next ih =>
    obtain ⟨answer, rest, rfl, ha⟩ := ha
    obtain ⟨answer', rest', heq, hb⟩ := hb
    cases heq
    exact ih answer ha hb

/-- **Answers in other words** lead to a result that tells the same. -/
theorem Alike.replays {p q : Program α} (h : p.Alike tell q) {l l' : List Exchange}
    (hl : List.Forall₂ Exchange.Reworded l l') {a : α} (ha : p.Replays l a) :
    ∃ b, q.Replays l' b ∧ tell a = tell b := by
  induction h generalizing l l' with
  | done told =>
    obtain ⟨rfl, rfl⟩ := ha
    cases hl
    exact ⟨_, ⟨rfl, rfl⟩, told⟩
  | ask answered ih =>
    obtain ⟨answer, rest, rfl, ha⟩ := ha
    cases hl with
    | cons hx hrest =>
      cases hx with
      | mk answers =>
        obtain ⟨b, hb, htold⟩ := ih _ _ answers hrest ha
        exact ⟨b, ⟨_, _, rfl, hb⟩, htold⟩

end Program

/-! ### Programs that fail -/

open Program

variable {ε α β : Type} {erase : ε → ε}

/-- **A discreet program**: answered in other words, it fails in other words at most. -/
def Discreet (erase : ε → ε) (m : ExceptT ε Program α) : Prop :=
  m.run.Alike (Except.mapError erase) m.run

theorem discreet_pure (a : α) : Discreet erase (pure a) := .done rfl

theorem discreet_throw (e : ε) : Discreet (α := α) erase (throw e) := .done rfl

theorem Discreet.bind {m : ExceptT ε Program α} {k : α → ExceptT ε Program β}
    (hm : Discreet erase m) (hk : ∀ a, Discreet erase (k a)) : Discreet erase (m >>= k) := by
  refine Alike.bind hm fun r r' h => ?_
  cases r with
  | ok a =>
    cases r' with
    | ok b => cases h; exact hk a
    | error e' => cases h
  | error e =>
    cases r' with
    | ok b => cases h
    | error e' => exact .done (congrArg Except.error (Except.error.inj h))

theorem discreet_mapM {f : α → ExceptT ε Program β} (hf : ∀ a, Discreet erase (f a))
    (as : List α) : Discreet erase (as.mapM f) := by
  induction as with
  | nil => exact discreet_pure _
  | cons a as ih =>
    rw [List.mapM_cons]
    exact (hf a).bind fun b => ih.bind fun bs => discreet_pure _

theorem discreet_call (call : StoreCall) :
    Discreet StoreError.withoutText (StoreM.call call) :=
  .ask fun _ _ h => .done h

theorem discreet_ofExcept (e : Except StoreError α) :
    Discreet StoreError.withoutText (StoreM.ofExcept e) := .done rfl

theorem discreet_check : Discreet StoreError.withoutText StoreM.check :=
  .ask fun a b h => .done (by rw [show a = b from h])

theorem Discreet.guarded {m : StoreM α} (hm : Discreet StoreError.withoutText m) :
    Discreet StoreError.withoutText (StoreM.guarded m) :=
  discreet_check.bind fun _ => hm

/-- **Where a store error becomes a failure**, its text goes into the detail. -/
theorem Discreet.inPlace {m : StoreM α} (hm : Discreet StoreError.withoutText m)
    (place : String) : Discreet Failure.withoutDetail (OperationM.inPlace place m) := by
  refine Alike.bind hm fun r r' h => ?_
  cases r with
  | ok a =>
    cases r' with
    | ok b => cases h; exact .done rfl
    | error e' => cases h
  | error e =>
    cases r' with
    | ok b => cases h
    | error e' =>
      have he := Failure.withoutDetail_ofStore place (Except.error.inj h)
      exact .done (congrArg Except.error he)

theorem discreet_ofProgram {p : Program α} (hp : p.Alike id p) :
    Discreet Failure.withoutDetail (OperationM.ofProgram p) :=
  Alike.bind hp fun a b h => by cases h; exact .done rfl

theorem alike_ofDraws (d : Draws α) : (ofDraws d).Alike id (ofDraws d) := by
  induction d with
  | done a => exact .done rfl
  | draw next ih => exact .ask fun a b h => by cases h; exact ih a

end Registrar
