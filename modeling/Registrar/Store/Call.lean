import Registrar.Store.Basic

/-!
# Calls of a store

What is asked of a store, as data: a call can be recorded, made to fail, or carried out. Reading
calls leave the store as it is.

* `StoreCall.Result`: what a call answers when it succeeds.
* `Store.serve`: carries out a call.
* `serve_of_not_isWrite`: reading changes nothing.
-/

namespace Registrar

/-- **A call of a store.** -/
inductive StoreCall where
  | find (query : Query) (collection : String)
  | count (filter : Option Filter) (collection : String)
  | insert (id : Uuid) (document : Document) (collection : String)
  | updateFirst (filter : Filter) (update : Update) (collection : String)
  | updateAll (filter : Filter) (update : Update) (collection : String)
  | deleteFirst (filter : Filter) (collection : String)
  | deleteAll (filter : Filter) (collection : String)
  | createCollection (name : String)
  | dropCollection (name : String)
  | listCollections

namespace StoreCall

/-- **What a call answers**: documents, a number, names, or nothing. -/
abbrev Result : StoreCall → Type
  | find _ _ => List Document
  | count _ _ => Nat
  | insert _ _ _ => Unit
  | updateFirst _ _ _ => Nat
  | updateAll _ _ _ => Nat
  | deleteFirst _ _ => Nat
  | deleteAll _ _ => Nat
  | createCollection _ => Unit
  | dropCollection _ => Unit
  | listCollections => List String

/-- The calls that change a store. -/
def isWrite : StoreCall → Bool
  | find _ _ | count _ _ | listCollections => false
  | _ => true

/-- The collection that a call is about. -/
def collection : StoreCall → String
  | find _ c | count _ c | insert _ _ c | updateFirst _ _ c | updateAll _ _ c | deleteFirst _ c
  | deleteAll _ c | createCollection c | dropCollection c => c
  | listCollections => ""

end StoreCall

namespace Store

/-- **Carries out a call**: the answer, and the store afterwards. -/
def serve (s : Store) : (call : StoreCall) → Except StoreError call.Result × Store
  | .find query name => (.ok (s.find query name), s)
  | .count filter name => (.ok (s.count filter name), s)
  | .insert id d name =>
    match s.insert id d name with
    | .ok s' => (.ok (), s')
    | .error e => (.error e, s)
  | .updateFirst f u name => (.ok (s.updateFirst f u name).2, (s.updateFirst f u name).1)
  | .updateAll f u name => (.ok (s.updateAll f u name).2, (s.updateAll f u name).1)
  | .deleteFirst f name => (.ok (s.deleteFirst f name).2, (s.deleteFirst f name).1)
  | .deleteAll f name => (.ok (s.deleteAll f name).2, (s.deleteAll f name).1)
  | .createCollection name => (.ok (), s.create name)
  | .dropCollection name => (.ok (), s.drop name)
  | .listCollections => (.ok s.names, s)

theorem serve_of_not_isWrite (s : Store) {call : StoreCall} (h : call.isWrite = false) :
    (s.serve call).2 = s := by
  cases call <;> first | rfl | simp [StoreCall.isWrite] at h

end Store

end Registrar
