import Registrar.Schema.Basic

/-!
# Kinds of entities

The engine handles every kind of entity alike, through its schema and a few functions: where its id
is, how it is brought into its canonical form, and how it passes to and from documents. Bringing an
entity into its canonical form may draw new ids for parts of it, so the ids to draw are an argument.

* `Draws`: a computation that draws new ids.
* `EntityKind`: what the engine knows of a kind of entity.
-/

namespace Registrar

/-- **A computation that draws new ids**: from the ids to come, a result and the ids left. -/
inductive Draws (α : Type) where
  | done (a : α)
  | draw (next : Uuid → Draws α)

namespace Draws

def bind {α β : Type} : Draws α → (α → Draws β) → Draws β
  | done a, f => f a
  | draw next, f => draw fun u => bind (next u) f

instance : Monad Draws where
  pure := done
  bind := bind

/-- One new id. -/
def newId : Draws Uuid := draw done

end Draws

/-- **A kind of entity.** -/
structure EntityKind (E : Type) where
  schema : Schema
  id : E → Uuid
  withId : Uuid → E → E
  /-- The name to show for the entity, for kinds that have one. -/
  displayName : E → Option String
  /-- The canonical form that is written. -/
  normalize : E → Draws E
  /-- The stored form, without copies of other entities. -/
  toDocument : E → Document
  /-- Reads a stored document, copies of other entities included. -/
  ofDocument? : Document → Option E

namespace EntityKind

variable {E : Type}

def collection (k : EntityKind E) : String := k.schema.collection

/-- Whether the entity has still to be given an id. -/
def isUnassigned (k : EntityKind E) (e : E) : Bool := (k.id e).isNil

end EntityKind

end Registrar
