import Registrar.Entity.Kind
import Registrar.Store.Call

/-!
# Programs over a store

An operation of the engine is a **program**: a tree of requests to its surroundings, each followed
by what to do with the answer. A program makes one request at a time, so its runs can be cut at any
request, made to fail there, or interleaved with those of other programs. Besides the store, a
program asks whether it was cancelled, for new ids, and for the time.

* `Program`: the trees, with `Program.bind`.
* `StoreM`, `OperationM`: programs that may fail, with store errors or as operations do.
* `check`, `guarded`: asking whether the operation was cancelled, and reading unless it was.
-/

namespace Registrar

/-! ### Requests -/

/-- **A request of a program.** -/
inductive Request where
  /-- A call of the store. -/
  | store (call : StoreCall)
  /-- Was the operation cancelled, or has its time run out? -/
  | isCancelled
  /-- A new id. -/
  | newId
  /-- The time, in milliseconds. -/
  | now

/-- **The answers to a request.** A call of the store may fail. -/
abbrev Request.Answer : Request → Type
  | .store call => Except StoreError call.Result
  | .isCancelled => Bool
  | .newId => Uuid
  | .now => Int64

/-! ### Programs -/

/-- **A program** with a result. -/
inductive Program (α : Type) where
  | done (a : α)
  | ask (request : Request) (next : request.Answer → Program α)

namespace Program

/-- Goes on with the result of a program. -/
def bind {α β : Type} : Program α → (α → Program β) → Program β
  | done a, f => f a
  | ask r next, f => ask r fun answer => bind (next answer) f

instance : Monad Program where
  pure := done
  bind := bind

/-- One request. -/
def request (r : Request) : Program r.Answer := ask r done

/-- A computation that draws new ids, as a program. -/
def ofDraws {α : Type} : Draws α → Program α
  | .done a => done a
  | .draw next => ask .newId fun u => ofDraws (next u)

/-! ### Laws -/

@[simp] theorem done_bind {α β : Type} (a : α) (f : α → Program β) : bind (done a) f = f a := rfl

@[simp] theorem bind_done {α : Type} (p : Program α) : bind p done = p := by
  induction p with
  | done a => rfl
  | ask r next ih => simp only [bind, ih]

theorem bind_assoc {α β γ : Type} (p : Program α) (f : α → Program β) (g : β → Program γ) :
    bind (bind p f) g = bind p fun a => bind (f a) g := by
  induction p with
  | done a => rfl
  | ask r next ih => simp only [bind, ih]

end Program

/-! ### Programs that fail -/

/-- **A program that may fail with a store error.** -/
abbrev StoreM := ExceptT StoreError Program

/-- **A program that may fail as an operation.** -/
abbrev OperationM := ExceptT Failure Program

namespace StoreM

/-- **A call of the store**; its failure is the program's. -/
def call (c : StoreCall) : StoreM c.Result := ExceptT.mk (Program.ask (.store c) .done)

/-- A result that is already there. -/
def ofExcept {α : Type} (e : Except StoreError α) : StoreM α := ExceptT.mk (pure e)

/-- **Fails if the operation was cancelled.** -/
def check : StoreM Unit :=
  ExceptT.mk (Program.ask .isCancelled fun cancelled =>
    .done (if cancelled then .error .cancelled else .ok ()))

/-- **A read** that is not begun once the operation was cancelled. -/
def guarded {α : Type} (p : StoreM α) : StoreM α := do
  check
  p

def find (query : Query) (collection : String) : StoreM (List Document) :=
  call (.find query collection)

def count (filter : Option Filter) (collection : String) : StoreM Nat :=
  call (.count filter collection)

def insert (id : Uuid) (document : Document) (collection : String) : StoreM Unit :=
  call (.insert id document collection)

def updateFirst (filter : Filter) (update : Update) (collection : String) : StoreM Nat :=
  call (.updateFirst filter update collection)

def updateAll (filter : Filter) (update : Update) (collection : String) : StoreM Nat :=
  call (.updateAll filter update collection)

def deleteFirst (filter : Filter) (collection : String) : StoreM Nat :=
  call (.deleteFirst filter collection)

def deleteAll (filter : Filter) (collection : String) : StoreM Nat :=
  call (.deleteAll filter collection)

end StoreM

namespace OperationM

/-- **A part of an operation that fails with a store error**, as its caller sees the failure. -/
def inPlace {α : Type} (place : String) (p : StoreM α) : OperationM α :=
  ExceptT.mk (Program.bind p.run fun
    | .ok a => .done (.ok a)
    | .error e => .done (.error (.ofStore place e)))

/-- A program that cannot fail. -/
def ofProgram {α : Type} (p : Program α) : OperationM α :=
  ExceptT.mk (Program.bind p fun a => .done (.ok a))

end OperationM

end Registrar
