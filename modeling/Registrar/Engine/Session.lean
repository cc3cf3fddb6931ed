import Registrar.Engine.Program

/-!
# Running programs

A **session** is what a program runs in: a store, a cancel token, a clock and a supply of new ids.
A session keeps the calls that were made of the store, and it can be told to disturb a certain call
of a kind: to cancel the operation, to let somebody else write first, or to fail instead.

* `Session.serve`: the answer to a request, and the session afterwards.
* `Program.run`: the result of a program, and the session afterwards.
-/

namespace Registrar

/-- The kinds of calls, which are counted apart. -/
inductive CallKind where
  | find
  | count
  | insertOne
  | updateFirst
  | updateAll
  | deleteFirst
  | deleteAll
  | createCollection
  | dropCollection
  | listCollections
  deriving DecidableEq

namespace CallKind

/-- The name of a kind. -/
def name : CallKind → String
  | .find => "find"
  | .count => "count"
  | .insertOne => "insert_one"
  | .updateFirst => "update_one"
  | .updateAll => "update_many"
  | .deleteFirst => "delete_one"
  | .deleteAll => "delete_many"
  | .createCollection => "create_collection"
  | .dropCollection => "drop_collection"
  | .listCollections => "list_collections"

/-- Every kind. -/
def every : List CallKind :=
  [.find, .count, .insertOne, .updateFirst, .updateAll, .deleteFirst, .deleteAll, .createCollection,
    .dropCollection, .listCollections]

end CallKind

/-- The kind of a call. -/
def StoreCall.kind : StoreCall → CallKind
  | .find _ _ => .find
  | .count _ _ => .count
  | .insert _ _ _ => .insertOne
  | .updateFirst _ _ _ => .updateFirst
  | .updateAll _ _ _ => .updateAll
  | .deleteFirst _ _ => .deleteFirst
  | .deleteAll _ _ => .deleteAll
  | .createCollection _ => .createCollection
  | .dropCollection _ => .dropCollection
  | .listCollections => .listCollections

/-- **What somebody else writes**: an update of the documents that meet a filter, or their
deletion. -/
structure Intrusion where
  filter : Filter
  update : Option Update

/-- **A disturbance** of the call with a number among those of its kind, counted from one. -/
structure Disturbance where
  kind : CallKind
  number : Nat
  cancels : Bool := false
  intrusion : Option Intrusion := none
  failure : Option StoreError := none

/-- **What a program runs in.** -/
structure Session where
  store : Store
  cancelled : Bool := false
  /-- Whether a disturbance can cancel the operation. -/
  cancellable : Bool := false
  now : Int64 := 0
  /-- The supply of new ids, and how many were drawn. -/
  supply : Nat → Uuid
  drawn : Nat := 0
  disturbances : List Disturbance := []
  /-- The calls made so far, the first one first. -/
  calls : List StoreCall := []

namespace Session

/-- The store after somebody else has written to a collection. -/
def intrude (s : Store) (collection : String) (i : Intrusion) : Store :=
  match i.update with
  | some u =>
    if u.isEmpty then (s.deleteAll i.filter collection).1
    else (s.updateAll i.filter u collection).1
  | none => (s.deleteAll i.filter collection).1

/-- The session after the part of a disturbance that comes before the call. -/
def disturb (collection : String) (s : Session) (d : Disturbance) : Session :=
  { s with
    cancelled := s.cancelled || (d.cancels && s.cancellable)
    store := match d.intrusion with
      | some i => intrude s.store collection i
      | none => s.store }

/-- The disturbances of the next call of a kind. -/
def due (s : Session) (kind : CallKind) : List Disturbance :=
  let number := (s.calls.filter fun c => c.kind = kind).length + 1
  s.disturbances.filter fun d => d.kind = kind && d.number = number

/-- The answer to a call of the store. -/
def serveCall (s : Session) (call : StoreCall) : Except StoreError call.Result × Session :=
  let due := s.due call.kind
  let s := due.foldl (disturb call.collection) { s with calls := s.calls ++ [call] }
  match due.findSome? Disturbance.failure with
  | some e => (.error e, s)
  | none =>
    let (answer, store) := s.store.serve call
    (answer, { s with store })

/-- **The answer to a request.** -/
def serve (s : Session) : (r : Request) → r.Answer × Session
  | .store call => s.serveCall call
  | .isCancelled => (s.cancelled, s)
  | .newId => (s.supply s.drawn, { s with drawn := s.drawn + 1 })
  | .now => (s.now, s)

end Session

/-- **Runs a program** in a session. -/
def Program.run {α : Type} : Program α → Session → α × Session
  | .done a, s => (a, s)
  | .ask r next, s =>
    let (answer, s) := s.serve r
    run (next answer) s

end Registrar
