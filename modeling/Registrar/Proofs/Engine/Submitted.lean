import Registrar.Proofs.Engine.Written

/-!
# What is submitted

Before it is written, a document that is submitted is pruned, and a new one also gets its lists,
its stamps and its version. All this happens in fields of their own, so a plain field holds what was
submitted. Each relation is pruned by itself, whichever others are.

* `value?_prunedIn_of_chosen`: the field of a relation that is pruned.
* `value?_submitted`: the fields of a document that is compared or planned.
* `mem_inserted`, `value?_newDocument`: a new document, and its fields.
-/

namespace Registrar

/-- **Fields that hold plain data**, are computed, or hold the id. -/
def Field.IsPlain (g : Field) : Prop :=
  match g.role with
  | .id | .data | .derived _ => True
  | _ => False

namespace Field.IsPlain

variable {g : Field} (h : g.IsPlain)

include h

theorem ne_dependency : g.role ≠ .dependency := by
  intro hr
  rw [IsPlain, hr] at h
  exact h

theorem ne_navigation : g.role ≠ .navigation := by
  intro hr
  rw [IsPlain, hr] at h
  exact h

theorem ne_stamp : g.role ≠ .updatedAt ∧ g.role ≠ .updatedBy ∧ g.role ≠ .version := by
  refine ⟨fun hr => ?_, fun hr => ?_, fun hr => ?_⟩ <;> rw [IsPlain, hr] at h <;> exact h

theorem ne_reference {sc : Schema} (hs : sc.Lawful) (hg : g ∈ sc.fields) :
    ∀ r ∈ sc.relations, g.name ≠ r.idField := fun _ hr =>
  hs.name_ne_reference hg h.ne_dependency hr

end Field.IsPlain

/-- **Relations are known** by the names of their fields. -/
def Schema.KnowsRelations (sc : Schema) : Prop :=
  ∀ r ∈ sc.relations, sc.relation? r.idField = some r

instance (sc : Schema) : Decidable sc.KnowsRelations :=
  inferInstanceAs (Decidable (∀ r ∈ sc.relations, sc.relation? r.idField = some r))

namespace Schema

variable {sc : Schema} {s : Store} {r : Relation}

theorem relation?_congr {a b : String} (h : nameKey a = nameKey b) :
    sc.relation? a = sc.relation? b := by
  rw [relation?, relation?, h]

theorem prunedIn_congr {d d' : Document} (h : d'.value? r.idField = d.value? r.idField) :
    (r.prunedIn s d').value? r.idField = (r.prunedIn s d).value? r.idField := by
  rw [Relation.prunedIn, Relation.prunedIn, Relation.keptIn, Relation.keptIn,
    Relation.targetIds_congr h]
  split
  · exact h
  · rw [Document.value?_put_self, Document.value?_put_self]

theorem value?_foldl_prunedIn_self {rs : List Relation} (hnodup : (rs.map Relation.idField).Nodup)
    (hr : r ∈ rs) (d : Document) :
    (rs.foldl (Relation.prunedIn s) d).value? r.idField = (r.prunedIn s d).value? r.idField := by
  induction rs generalizing d with
  | nil => cases hr
  | cons r' rs ih =>
    rw [List.map_cons, List.nodup_cons] at hnodup
    rw [List.foldl_cons]
    rcases List.mem_cons.mp hr with rfl | hr
    · refine value?_foldl_prunedIn (fun x hx heq => hnodup.1 ?_) _
      exact heq ▸ List.mem_map_of_mem hx
    · have hne : r.idField ≠ r'.idField := fun heq => hnodup.1 (heq ▸ List.mem_map_of_mem hr)
      rw [ih hnodup.2 hr, prunedIn_congr (Relation.value?_prunedIn_of_ne hne)]

/-- **A chosen relation is pruned** as it is when all are. -/
theorem value?_prunedIn_of_chosen (hl : sc.Linked) {only : Option (List String)}
    (hr : r ∈ sc.chosenRelations only) (d : Document) :
    (sc.prunedIn s only d).value? r.idField = (sc.prunedIn s none d).value? r.idField := by
  have hsub := (sc.chosenRelations_sublist only).map Relation.idField
  exact (value?_foldl_prunedIn_self (hl.nodup.sublist hsub) hr d).trans
    (value?_foldl_prunedIn_self hl.nodup (mem_chosenRelations hr) d).symm

end Schema

namespace Collection

variable {E : Type} {c : Collection E} {caller : Caller} {s : Store} {g : Field} {r : Relation}

/-- **A plain field** holds what was submitted. -/
theorem value?_submitted {name : String} (h : ∀ r ∈ c.schema.relations, name ≠ r.idField)
    (prune : Bool) (only : Option (List String)) (d : Document) :
    (c.submitted s prune only d).value? name = d.value? name := by
  rw [submitted]
  split
  · exact Schema.value?_prunedIn fun r hr => h r (Schema.mem_chosenRelations hr)
  · rfl

/-- **After an insertion** there is one more document. -/
theorem mem_inserted {t : Store} {id : Uuid} {d : Document} (h : s.insert id d c.name = .ok t)
    {e : Uuid × Document} :
    e ∈ t.entries c.name ↔ e = (id, d) ∨ e ∈ s.entries c.name := by
  rw [Store.entries_insert h, if_pos rfl, Entries.mem_insert]

/-- **A plain field of a new document** holds what was submitted. -/
theorem value?_newDocument (hs : c.schema.Lawful) (hg : g ∈ c.schema.fields) (hp : g.IsPlain)
    (now : Int64) (e : E) :
    (c.stampedNewAt caller now (c.newDocument s e)).value? g.name =
      (c.kind.toDocument e).value? g.name := by
  have hother := hp.ne_reference hs hg
  rw [c.value?_stampedNewAt caller hs hg hp.ne_stamp, newDocument,
    Schema.value?_prunedIn fun r hr => hother r (Schema.mem_chosenRelations hr),
    c.value?_withLists hother, c.value?_withoutNavigation hs hg hp.ne_navigation]

end Collection

end Registrar
