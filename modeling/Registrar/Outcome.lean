/-!
# Failures and outcomes

An operation can fail in two layers. A **store error** arises in a backend or while a request is
planned, and its text may tell of the inside of the store. A **failure** is what the caller of an
operation sees. The passage from the first to the second keeps the kinds a caller can act on and
replaces every other text by a general sentence; the text of the store moves to a detail that is
kept apart.

* `StoreError.message`, `Failure.message`: the wording.
* `Failure.ofStore`: the passage.
* `Outcome`: the envelope of an operation's answer.
-/

namespace Registrar

/-- **An error of the store or of planning.** -/
inductive StoreError where
  | serialization (text : String)
  | initialization (text : String)
  | documentAlreadyExists (id collection : String)
  | invalidDocument (text : String)
  | invalidQuery (text : String)
  | write (text : String)
  | backend (text : String)
  | cancelled
  deriving DecidableEq

namespace StoreError

/-- The name of the kind of a store error. -/
def name : StoreError → String
  | .serialization _ => "Serialization"
  | .initialization _ => "Initialization"
  | .documentAlreadyExists _ _ => "DocumentAlreadyExists"
  | .invalidDocument _ => "InvalidDocument"
  | .invalidQuery _ => "InvalidQuery"
  | .write _ => "Write"
  | .backend _ => "Backend"
  | .cancelled => "Cancelled"

/-- The wording of a store error. -/
def message : StoreError → String
  | .serialization t => "Serialization error: " ++ t
  | .initialization t => "Initialization error: " ++ t
  | .documentAlreadyExists id c => "Document " ++ id ++ " already exists in collection " ++ c
  | .invalidDocument t => "Invalid document: " ++ t
  | .invalidQuery t => "Invalid query: " ++ t
  | .write t => "Write error: " ++ t
  | .backend t => "Backend error: " ++ t
  | .cancelled => "Operation cancelled"

end StoreError

/-- The kinds of failure that callers tell apart. -/
inductive FailureKind where
  | objectNotFound
  | duplicateObject
  | duplicateName
  | genericWriteFailure
  | concurrentModification
  | invalidSearch
  | invalidArgument
  | cancelled
  deriving DecidableEq

namespace FailureKind

/-- The name of the kind. -/
def name : FailureKind → String
  | .objectNotFound => "ObjectNotFound"
  | .duplicateObject => "DuplicateObject"
  | .duplicateName => "DuplicateName"
  | .genericWriteFailure => "GenericWriteFailure"
  | .concurrentModification => "ConcurrentModification"
  | .invalidSearch => "InvalidSearch"
  | .invalidArgument => "InvalidArgument"
  | .cancelled => "Cancelled"

end FailureKind

/-- **A failure of an operation**, as its caller sees it. -/
inductive Failure where
  | objectNotFound (collection id : String)
  | duplicateObject (id : String)
  | duplicateName (name : String)
  | genericWriteFailure (text detail : String)
  | concurrentModification (id : String)
  | invalidSearch (text : String)
  | invalidArgument (text : String)
  | cancelled
  deriving DecidableEq

namespace Failure

/-- The wording shown to a caller. -/
def message : Failure → String
  | .objectNotFound c id => "Object " ++ id ++ " not found in " ++ c
  | .duplicateObject id => "Object " ++ id ++ " already exists"
  | .duplicateName name => "An object named '" ++ name ++ "' already exists"
  | .genericWriteFailure text _ => text
  | .concurrentModification id => "Object " ++ id ++ " was modified concurrently"
  | .invalidSearch t => "Invalid search: " ++ t
  | .invalidArgument t => "Invalid argument: " ++ t
  | .cancelled => "Operation cancelled"

def kind : Failure → FailureKind
  | .objectNotFound _ _ => .objectNotFound
  | .duplicateObject _ => .duplicateObject
  | .duplicateName _ => .duplicateName
  | .genericWriteFailure _ _ => .genericWriteFailure
  | .concurrentModification _ => .concurrentModification
  | .invalidSearch _ => .invalidSearch
  | .invalidArgument _ => .invalidArgument
  | .cancelled => .cancelled

/-- What is kept for the log and not shown. -/
def detail? : Failure → Option String
  | .genericWriteFailure _ detail => some detail
  | _ => none

/-- **The caller's view of a store error** that arose at a place. -/
def ofStore (place : String) (e : StoreError) : Failure :=
  let detail := "Generic exception in " ++ place ++ ": " ++ e.message
  match e with
  | .invalidQuery t => .invalidSearch t
  | .cancelled => .cancelled
  | .documentAlreadyExists id _ => .duplicateObject id
  | .write _ => .genericWriteFailure "Unable to write changes to the store" detail
  | .serialization _ | .initialization _ | .invalidDocument _ | .backend _ =>
    .genericWriteFailure "Generic problem in the store" detail

end Failure

/-- **The envelope of an answer**: a payload, or what a caller is told about the failure. -/
structure Outcome (α : Type) where
  success : Bool
  errorMessage : Option String
  errorDetail : Option String
  errorKind : Option FailureKind
  payload : Option α

namespace Outcome

def ok {α : Type} (payload : α) : Outcome α := ⟨true, none, none, none, some payload⟩

def failure {α : Type} (e : Failure) : Outcome α :=
  ⟨false, some e.message, e.detail?, some e.kind, none⟩

/-- The envelope of a result. -/
def ofExcept {α : Type} : Except Failure α → Outcome α
  | .ok a => ok a
  | .error e => failure e

def map {α β : Type} (f : α → β) (o : Outcome α) : Outcome β :=
  { o with payload := o.payload.map f }

end Outcome

end Registrar
