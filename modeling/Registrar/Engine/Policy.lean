import Registrar.Filter.Basic
import Registrar.Outcome

/-!
# Callers and what they may see

Operations run on behalf of a **caller**. An access policy says for each entity whether a caller
may see and change it, and may give a filter that is added to every search and look-up. If that
filter is complete, it hides just what the access policy rejects, and a search need not ask for
each entity.

* `AccessPolicy.grantedAmong`: the ids among several that a caller may access.
* `AccessPolicy.unrestricted`: the access policy that rejects nothing.
-/

namespace Registrar

/-- **On whose behalf** an operation runs. -/
structure Caller where
  userId : Option String := none
  deriving DecidableEq

namespace Caller

/-- What is stamped into the entities that the caller writes. -/
def stamp (c : Caller) : String := c.userId.getD ""

end Caller

/-- **An access policy.** -/
structure AccessPolicy where
  /-- Whether the caller may see and change the entity with the id. -/
  grants : String → Uuid → Caller → Except StoreError Bool
  /-- A filter for every search and look-up in the collection. -/
  visibility : String → Caller → Option Filter
  /-- Whether that filter hides just the entities that are rejected. -/
  isComplete : String → Caller → Bool

namespace AccessPolicy

/-- Grants access to everything. -/
def unrestricted : AccessPolicy where
  grants _ _ _ := .ok true
  visibility _ _ := none
  isComplete _ _ := true

/-- **The ids among several that the caller may access**, in their order. -/
def grantedAmong (a : AccessPolicy) (collection : String) (caller : Caller) :
    List Uuid → Except StoreError (List Uuid)
  | [] => .ok []
  | id :: r => do
    let accessible ← a.grants collection id caller
    let rest ← grantedAmong a collection caller r
    return if accessible then id :: rest else rest

end AccessPolicy

end Registrar
