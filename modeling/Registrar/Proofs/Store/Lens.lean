import Registrar.Proofs.Store.Parts

/-!
# Reading after writing, at paths

What is written at a path is read there. It is not noticed at a path that is **apart** from it, of
which neither leads through the other. Both are seen one segment after the other: below the first
segment a path goes on in the object that stands there, and where there is none, in the empty one.

* `Apart`: neither path leads through the other.
* `readPath?_writePath_self`: what is written is read.
* `readPath?_writePath_of_apart`: what is apart stays.
* `readPath?_setAll_of_apart`, `readPath?_addAll_of_apart`: so does what is apart from all paths of
  an update.
-/

namespace Registrar

/-- **Paths that are apart**: neither leads through the other. -/
def Apart (p q : String) : Prop :=
  ¬ Text.segments p <+: Text.segments q ∧ ¬ Text.segments q <+: Text.segments p

instance (p q : String) : Decidable (Apart p q) :=
  inferInstanceAs (Decidable (_ ∧ _))

namespace Document

variable {d : Document} {k l : String} {r p q : List String} {v : Value}

/-! ### Segment by segment -/

theorem readAt?_nil (p : List String) : readAt? p [] = none := by
  match p with
  | [] => rfl
  | [_] => rfl
  | _ :: _ :: _ => rfl

theorem readAt?_cons_cons (k l : String) (r : List String) (d : Document) :
    readAt? (k :: l :: r) d = readAt? (l :: r) (d.objectAt k) := by
  rw [readAt?.eq_3 _ _ _ (by simp), objectAt]
  cases d.value? k with
  | none => exact (readAt?_nil _).symm
  | some v => cases v <;> first | rfl | exact (readAt?_nil _).symm

theorem writeAt_cons_cons (k l : String) (r : List String) (v : Value) (d : Document) :
    writeAt (k :: l :: r) v d = d.put k (.document (writeAt (l :: r) v (d.objectAt k))) := by
  rw [writeAt.eq_3 _ _ _ _ (by simp), objectAt]
  congr 3
  cases d.value? k with
  | none => rfl
  | some x => cases x <;> rfl

theorem objectAt_put_self (d : Document) (k : String) (inner : Document) :
    (d.put k (.document inner)).objectAt k = inner :=
  objectAt_of_value? (value?_put_self d k _)

theorem readAt?_congr {d d' : Document} (h : d'.value? k = d.value? k) (r : List String) :
    readAt? (k :: r) d' = readAt? (k :: r) d := by
  cases r with
  | nil => exact h
  | cons l r => rw [readAt?_cons_cons, readAt?_cons_cons, objectAt, objectAt, h]

/-! ### Reading after writing -/

theorem readAt?_writeAt_self (hp : p ≠ []) (v : Value) (d : Document) :
    readAt? p (writeAt p v d) = some v := by
  induction p generalizing d with
  | nil => exact absurd rfl hp
  | cons k r ih =>
    cases r with
    | nil => exact value?_put_self d k v
    | cons l r => rw [readAt?_cons_cons, writeAt_cons_cons, objectAt_put_self, ih (by simp)]

theorem readAt?_writeAt_of_apart (hpq : ¬ p <+: q) (hqp : ¬ q <+: p) (v : Value) (d : Document) :
    readAt? q (writeAt p v d) = readAt? q d := by
  induction p generalizing q d with
  | nil => exact absurd List.nil_prefix hpq
  | cons k r ih =>
    cases q with
    | nil => exact absurd List.nil_prefix hqp
    | cons m s =>
      by_cases hkm : m = k
      · subst hkm
        rw [List.cons_prefix_cons, and_iff_right rfl] at hpq hqp
        -- Below the field that both lead through, the rests are apart.
        cases r with
        | nil => exact absurd List.nil_prefix hpq
        | cons l r =>
          cases s with
          | nil => exact absurd List.nil_prefix hqp
          | cons n s =>
            rw [readAt?_cons_cons, readAt?_cons_cons, writeAt_cons_cons, objectAt_put_self,
              ih hpq hqp]
      · exact readAt?_congr (value?_writeAt_of_ne hkm r v d) s

theorem segments_ne_nil (path : String) : Text.segments path ≠ [] := by
  obtain ⟨r, hr⟩ := Text.segments_eq_cons path
  rw [hr]
  exact List.cons_ne_nil _ _

/-- **What is written at a path is read there.** -/
theorem readPath?_writePath_self (d : Document) (path : String) (v : Value) :
    (d.writePath path v).readPath? path = some v :=
  readAt?_writeAt_self (segments_ne_nil path) v d

/-- **What is apart from a path stays** when there is written. -/
theorem readPath?_writePath_of_apart {path other : String} (h : Apart path other) (d : Document)
    (v : Value) : (d.writePath path v).readPath? other = d.readPath? other :=
  readAt?_writeAt_of_apart h.1 h.2 v d

/-! ### Updates -/

theorem readPath?_setAll_of_apart {sets : List (String × Value)} {path : String}
    (h : ∀ s ∈ sets, Apart s.1 path) (d : Document) :
    (setAll sets d).readPath? path = d.readPath? path := by
  induction sets generalizing d with
  | nil => rfl
  | cons s r ih =>
    rw [List.forall_mem_cons] at h
    rw [setAll_cons, ih h.2, readPath?_writePath_of_apart h.1]

theorem addAll_cons (i : String × Int64) (r : List (String × Int64)) (d : Document) :
    addAll (i :: r) d = addAll r (d.addPath i.1 i.2) := rfl

theorem addAll_append (a b : List (String × Int64)) (d : Document) :
    addAll (a ++ b) d = addAll b (addAll a d) := List.foldl_append

theorem readPath?_addAll_of_apart {incs : List (String × Int64)} {path : String}
    (h : ∀ i ∈ incs, Apart i.1 path) (d : Document) :
    (addAll incs d).readPath? path = d.readPath? path := by
  induction incs generalizing d with
  | nil => rfl
  | cons i r ih =>
    rw [List.forall_mem_cons] at h
    rw [addAll_cons, ih h.2, addPath, readPath?_writePath_of_apart h.1]

end Document

end Registrar
