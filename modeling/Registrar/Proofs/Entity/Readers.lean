import Registrar.Entity.Form

/-!
# What can be read

A record can be read if each of its fields can. This file says so of the readers for lists,
optional values and fields, and that the parts of a value are nested less deep than the value, for
the readers that are bounded by a depth.

* `isSome_list`, `isSome_nullable`, `isSome_optional`: when such a reader reads.
* `Value.depth_of_value?`, `Value.depth_of_mem`: the depth of the parts.
-/

namespace Registrar

namespace Reading

variable {α : Type} {r : Reader α}

theorem any_const (o : Option α) (b : Bool) : (o.any fun _ => b) = (o.isSome && b) := by
  cases o <;> simp

theorem isSome_list {items : List Value} :
    (list r (.array items)).isSome = true ↔ ∀ v ∈ items, (r v).isSome = true := by
  change (items.mapM r).isSome = true ↔ _
  induction items with
  | nil => simp
  | cons v vs ih =>
    rw [List.mapM_cons, List.forall_mem_cons, ← ih]
    cases hv : r v with
    | none => simp
    | some x => cases hvs : vs.mapM r <;> simp

theorem isSome_list_iff {v : Value} :
    (list r v).isSome = true ↔ ∃ items, v = .array items ∧ ∀ x ∈ items, (r x).isSome = true := by
  cases v with
  | array items => simp [isSome_list]
  | _ => simp [list]

theorem isSome_nullable {v : Value} :
    (nullable r v).isSome = true ↔ v = .null ∨ (r v).isSome = true := by
  cases v <;> simp [nullable]

theorem isSome_optional {d : Document} {name : String} {default : α} :
    (Reading.optional d name default r).isSome = true ↔
      ∀ v, d.value? name = some v → (r v).isSome = true := by
  rw [Reading.optional]
  cases d.value? name <;> simp

end Reading

namespace Value

theorem depth_of_mem {v : Value} {items : List Value} (h : v ∈ items) :
    v.depth ≤ itemsDepth items := by
  induction items with
  | nil => cases h
  | cons x xs ih =>
    rw [itemsDepth]
    rcases List.mem_cons.mp h with rfl | h
    · exact Nat.le_max_left _ _
    · exact Nat.le_trans (ih h) (Nat.le_max_right _ _)

theorem depth_of_value? {d : Document} {name : String} {v : Value} (h : d.value? name = some v) :
    v.depth ≤ fieldsDepth d := by
  induction d with
  | nil => cases h
  | cons x xs ih =>
    obtain ⟨k, y⟩ := x
    rw [fieldsDepth]
    rw [Document.value?] at h
    split at h
    · cases h
      exact Nat.le_max_left _ _
    · exact Nat.le_trans (ih h) (Nat.le_max_right _ _)

end Value

end Registrar
