import Registrar.Proofs.Change.Conflicts
import Registrar.Proofs.Directory.References
import Registrar.Proofs.Engine.Submitted
import Registrar.Proofs.Value.Agreement

/-!
# Dangling references

An id in the field of a relation dangles when there is no entity with it. Pruning takes these ids
out and nothing else. Relations that store their ids in different fields do not meddle with each
other, so what is reported can be told from the document as it was. A document that has been pruned
has no dangling ids, and following its relations once more changes nothing.

* `Relation.prunedChanges`, `Schema.prunedFields`: what is reported.
* `tells_followAll`, `Schema.tells_follow`: following relations changes and reports this.
* `Schema.Pruned`, `resolve_prunes`: exactly the dangling ids go.
-/

namespace Registrar

instance (s : Store) (name : String) (id : Uuid) : Decidable (s.Has name id) :=
  inferInstanceAs (Decidable (id ∈ (s.entries name).map Prod.fst))

/-! ### One relation -/

namespace Relation

variable {w : Surroundings} {s : Store} {F : Prop} {r r' : Relation} {d d' : Document}

theorem keptIn_eq (s : Store) (r : Relation) (d : Document) :
    r.keptIn s d = (r.targetIds d).filter (s.Has r.target ·) := by
  refine List.filter_congr fun id _ => ?_
  rw [Bool.eq_iff_iff, Store.isSome_document?, decide_eq_true_iff]

theorem keptIn_congr (h : d'.value? r.idField = d.value? r.idField) :
    r.keptIn s d' = r.keptIn s d := by
  rw [keptIn, keptIn, targetIds_congr h]

theorem keptIn_prunedIn (s : Store) (r : Relation) (d : Document) :
    r.keptIn s (r.prunedIn s d) = r.keptIn s d := by
  rw [keptIn, targetIds_prunedIn, keptIn, List.filter_filter]
  simp only [Bool.and_self]

theorem prunedChange_eq_none_iff :
    r.prunedChange s d = none ↔ r.keptIn s d = r.targetIds d := by
  rw [prunedChange, ← length_keptIn_eq_iff]
  split <;> simpa

theorem prunedChange_congr (h : d'.value? r.idField = d.value? r.idField) :
    r.prunedChange s d' = r.prunedChange s d := by
  rw [prunedChange, prunedChange, keptIn_congr h, targetIds_congr h]

theorem value?_prunedIn_of_change {v : Value} (h : r.prunedChange s d = some v) :
    (r.prunedIn s d).value? r.idField = some v := by
  rw [prunedChange] at h
  rw [prunedIn]
  split at h
  · cases h
  · rename_i hlen
    cases h
    rw [if_neg hlen, Document.value?_put_self]

theorem prunedIn_of_kept (h : r.keptIn s d = r.targetIds d) : r.prunedIn s d = d := by
  rw [prunedIn, if_pos (length_keptIn_eq_iff.mpr h)]

theorem mem_keys_of_targetIds (h : r.targetIds d ≠ []) : r.idField ∈ Document.keys d := by
  cases hv : d.value? r.idField with
  | some v => exact List.mem_map_of_mem (Document.mem_of_value? hv)
  | none =>
    refine absurd ?_ h
    rw [targetIds, Document.valueOrNull, hv]
    cases r.cardinality <;> rfl

theorem keys_prunedIn (s : Store) (d : Document) (r : Relation) :
    Document.keys (r.prunedIn s d) = Document.keys d := by
  rw [prunedIn]
  split
  · rfl
  · rename_i hlen
    refine Document.keys_put_of_mem (mem_keys_of_targetIds fun hnil => hlen ?_)
    rw [keptIn, hnil]
    rfl

/-! ### Several relations -/

/-- What several relations report. -/
def prunedChanges (s : Store) (rs : List Relation) (d : Document) : Changes :=
  rs.filterMap fun r => (r.prunedChange s d).map (r.idField, ·)

theorem prunedChanges_congr {rs : List Relation}
    (h : ∀ r ∈ rs, d'.value? r.idField = d.value? r.idField) :
    prunedChanges s rs d' = prunedChanges s rs d :=
  List.filterMap_congr fun r hr => by rw [prunedChange_congr (h r hr)]

theorem mem_prunedChanges {rs : List Relation} {p : String × Value} :
    p ∈ prunedChanges s rs d ↔ ∃ r ∈ rs, p.1 = r.idField ∧ r.prunedChange s d = some p.2 := by
  simp only [prunedChanges, List.mem_filterMap, Option.map_eq_some_iff]
  constructor
  · rintro ⟨r, hr, v, hv, rfl⟩
    exact ⟨r, hr, rfl, hv⟩
  · rintro ⟨r, hr, hname, hv⟩
    exact ⟨r, hr, p.2, hv, by rw [← hname]⟩

theorem keys_prunedChanges (s : Store) (rs : List Relation) (d : Document) :
    (Document.keys (prunedChanges s rs d)).Sublist (rs.map idField) := by
  induction rs with
  | nil => exact List.Sublist.refl _
  | cons r rs ih =>
    rw [prunedChanges, List.filterMap_cons]
    cases r.prunedChange s d with
    | none => exact ih.cons _
    | some v => exact ih.cons_cons _

/-- **Relations with fields of their own** prune and report as each of them does by itself. -/
theorem tells_followAll (hc : w.cancels → F) (hf : w.fails → F) (hk : s.Keyed) (viewer : Viewer)
    {rs : List Relation} (hnodup : (rs.map idField).Nodup) (d : Document) {changes : Changes}
    (hnew : ∀ r ∈ rs, r.idField ∉ Document.keys changes) :
    Tells w s F (· = (rs.foldl (prunedIn s) d, changes ++ prunedChanges s rs d))
      (resolveAll viewer ⟨true, false⟩ rs d changes) := by
  induction rs generalizing d changes with
  | nil => exact tells_pure (by simp [prunedChanges])
  | cons r rs ih =>
    rw [List.map_cons, List.nodup_cons] at hnodup
    refine (tells_follow hc hf hk viewer r d).bind fun out hout => ?_
    subst hout
    have hne : ∀ x ∈ rs, x.idField ≠ r.idField := fun x hx heq =>
      hnodup.1 (heq ▸ List.mem_map_of_mem hx)
    have hrest : prunedChanges s rs (r.prunedIn s d) = prunedChanges s rs d :=
      prunedChanges_congr fun x hx => value?_prunedIn_of_ne (hne x hx)
    have hlater : ∀ x ∈ rs, x.idField ∉ Document.keys changes := fun x hx =>
      hnew x (List.mem_cons_of_mem r hx)
    rw [prunedChanges, List.filterMap_cons, List.foldl_cons]
    cases hr : r.prunedChange s d with
    | none =>
      refine (ih hnodup.2 (r.prunedIn s d) hlater).mono fun out hout => ?_
      rw [hout, hrest]
      rfl
    | some v =>
      have hput : Document.put changes r.idField v = changes ++ [(r.idField, v)] :=
        Document.put_of_notMem (hnew r List.mem_cons_self)
      have hlater' : ∀ x ∈ rs, x.idField ∉ Document.keys (Document.put changes r.idField v) :=
        fun x hx hm => (Document.mem_keys_put.mp hm).elim (hne x hx) (hlater x hx)
      refine (ih hnodup.2 (r.prunedIn s d) hlater').mono fun out hout => ?_
      rw [hout, hrest, hput, List.append_assoc]
      rfl

theorem foldl_prunedIn_of_kept {rs : List Relation}
    (h : ∀ r ∈ rs, r.keptIn s d = r.targetIds d) : rs.foldl (prunedIn s) d = d := by
  induction rs with
  | nil => rfl
  | cons r rs ih =>
    rw [List.foldl_cons, prunedIn_of_kept (h r List.mem_cons_self)]
    exact ih fun x hx => h x (List.mem_cons_of_mem r hx)

theorem keys_foldl_prunedIn (s : Store) (rs : List Relation) (d : Document) :
    Document.keys (rs.foldl (prunedIn s) d) = Document.keys d := by
  induction rs generalizing d with
  | nil => rfl
  | cons r rs ih => rw [List.foldl_cons, ih, keys_prunedIn]

end Relation

namespace Schema

variable {sc : Schema} {w : Surroundings} {s : Store} {F : Prop} {only : Option (List String)}
  {r : Relation} {d : Document}

/-- **What following the chosen relations reports.** -/
def prunedFields (sc : Schema) (s : Store) (only : Option (List String)) (d : Document) :
    Changes :=
  Relation.prunedChanges s (sc.chosenRelations only) d

theorem chosen_nodup (hn : (sc.relations.map Relation.idField).Nodup)
    (only : Option (List String)) : ((sc.chosenRelations only).map Relation.idField).Nodup :=
  hn.sublist ((sc.chosenRelations_sublist only).map Relation.idField)

theorem tells_follow (hn : (sc.relations.map Relation.idField).Nodup) (hc : w.cancels → F)
    (hf : w.fails → F) (hk : s.Keyed) (viewer : Viewer) (only : Option (List String))
    (d : Document) :
    Tells w s F (· = (sc.prunedIn s only d, sc.prunedFields s only d))
      (sc.resolve viewer ⟨true, false⟩ only d) :=
  Relation.tells_followAll hc hf hk viewer (chosen_nodup hn only) d
    fun _ _ hm => absurd hm List.not_mem_nil

theorem targetIds_prunedIn (hn : (sc.relations.map Relation.idField).Nodup)
    (hr : r ∈ sc.chosenRelations only) (d : Document) :
    r.targetIds (sc.prunedIn s only d) = r.keptIn s d := by
  rw [← Relation.targetIds_prunedIn]
  exact Relation.targetIds_congr (value?_foldl_prunedIn_self (chosen_nodup hn only) hr d)

theorem targetIds_prunedIn_of_not (hn : (sc.relations.map Relation.idField).Nodup)
    (hr : r ∈ sc.relations) (hnot : r ∉ sc.chosenRelations only) (d : Document) :
    r.targetIds (sc.prunedIn s only d) = r.targetIds d := by
  refine Relation.targetIds_congr (value?_prunedIn fun x hx heq => hnot ?_)
  rwa [List.inj_on_of_nodup_map hn hr (mem_chosenRelations hx) heq]

theorem keptIn_prunedIn (hn : (sc.relations.map Relation.idField).Nodup)
    (hr : r ∈ sc.chosenRelations only) (d : Document) :
    r.keptIn s (sc.prunedIn s only d) = r.targetIds (sc.prunedIn s only d) := by
  have hsame := value?_foldl_prunedIn_self (s := s) (chosen_nodup hn only) hr d
  rw [targetIds_prunedIn hn hr]
  exact (Relation.keptIn_congr hsame).trans (Relation.keptIn_prunedIn s r d)

/-- **A document that was pruned** stays as it is. -/
theorem prunedIn_prunedIn (hn : (sc.relations.map Relation.idField).Nodup) (d : Document) :
    sc.prunedIn s only (sc.prunedIn s only d) = sc.prunedIn s only d :=
  Relation.foldl_prunedIn_of_kept fun _ hr => keptIn_prunedIn hn hr d

theorem prunedFields_prunedIn (hn : (sc.relations.map Relation.idField).Nodup) (d : Document) :
    sc.prunedFields s only (sc.prunedIn s only d) = [] := by
  rw [List.eq_nil_iff_forall_not_mem]
  intro p hp
  obtain ⟨r, hr, -, hv⟩ := Relation.mem_prunedChanges.mp hp
  rw [Relation.prunedChange_eq_none_iff.mpr (keptIn_prunedIn hn hr d)] at hv
  cases hv

/-- **A document and what is reported** after the chosen relations of a document were pruned. -/
structure Pruned (sc : Schema) (s : Store) (only : Option (List String)) (d : Document)
    (out : Document × Changes) : Prop where
  /-- The ids of entities that exist are left, in their order and as often as before. -/
  kept : ∀ r ∈ sc.chosenRelations only,
    r.targetIds out.1 = (r.targetIds d).filter (s.Has r.target ·)
  /-- A field is reported exactly if ids were taken out of it. -/
  named : ∀ r ∈ sc.relations,
    r.idField ∈ Document.keys out.2 ↔ r.targetIds out.1 ≠ r.targetIds d
  /-- No field is reported twice. -/
  nodup : (Document.keys out.2).Nodup
  /-- What is reported is what the document holds in the field of a chosen relation. -/
  reported : ∀ p ∈ out.2,
    (∃ r ∈ sc.chosenRelations only, p.1 = r.idField) ∧ out.1.value? p.1 = some p.2
  /-- All fields that are not reported keep their values, those of chosen relations too. -/
  others : ∀ name, name ∉ Document.keys out.2 → out.1.value? name = d.value? name
  /-- No field is added, dropped or moved. -/
  keys : Document.keys out.1 = Document.keys d

/-- A field of which nothing is reported keeps its value, however it spells its ids. -/
theorem value?_prunedIn_of_unreported (hn : (sc.relations.map Relation.idField).Nodup)
    {name : String} (h : name ∉ Document.keys (sc.prunedFields s only d)) :
    (sc.prunedIn s only d).value? name = d.value? name := by
  by_cases hchosen : ∃ r ∈ sc.chosenRelations only, name = r.idField
  · obtain ⟨r, hr, rfl⟩ := hchosen
    have hnone : r.prunedChange s d = none := by
      by_contra hsome
      obtain ⟨v, hv⟩ := Option.ne_none_iff_exists'.mp hsome
      have hreported : (r.idField, v) ∈ sc.prunedFields s only d :=
        Relation.mem_prunedChanges.mpr ⟨r, hr, rfl, hv⟩
      exact h (List.mem_map_of_mem hreported)
    have hkept : r.prunedIn s d = d :=
      Relation.prunedIn_of_kept (Relation.prunedChange_eq_none_iff.mp hnone)
    have hown := value?_foldl_prunedIn_self (s := s) (chosen_nodup hn only) hr d
    rwa [hkept] at hown
  · exact value?_prunedIn fun r hr heq => hchosen ⟨r, hr, heq⟩

theorem pruned (hn : (sc.relations.map Relation.idField).Nodup) (s : Store)
    (only : Option (List String)) (d : Document) :
    sc.Pruned s only d (sc.prunedIn s only d, sc.prunedFields s only d) where
  kept r hr := by rw [targetIds_prunedIn hn hr, Relation.keptIn_eq]
  named r hr := by
    by_cases hchosen : r ∈ sc.chosenRelations only
    · rw [targetIds_prunedIn hn hchosen, Ne, ← Relation.prunedChange_eq_none_iff]
      constructor
      · intro hkey
        obtain ⟨p, hp, hname⟩ := List.mem_map.mp hkey
        obtain ⟨x, hx, hx', hv⟩ := Relation.mem_prunedChanges.mp hp
        obtain rfl := List.inj_on_of_nodup_map hn hr (mem_chosenRelations hx)
          (hname.symm.trans hx')
        rw [hv]
        exact Option.some_ne_none _
      · intro hne
        obtain ⟨v, hv⟩ := Option.ne_none_iff_exists'.mp hne
        exact List.mem_map.mpr
          ⟨(r.idField, v), Relation.mem_prunedChanges.mpr ⟨r, hchosen, rfl, hv⟩, rfl⟩
    · rw [targetIds_prunedIn_of_not hn hr hchosen]
      refine iff_of_false (fun hkey => hchosen ?_) fun h => h rfl
      obtain ⟨p, hp, hname⟩ := List.mem_map.mp hkey
      obtain ⟨x, hx, hx', -⟩ := Relation.mem_prunedChanges.mp hp
      rwa [List.inj_on_of_nodup_map hn hr (mem_chosenRelations hx) (hname.symm.trans hx')]
  nodup := (chosen_nodup hn only).sublist (Relation.keys_prunedChanges s _ d)
  reported p hp := by
    obtain ⟨r, hr, hname, hv⟩ := Relation.mem_prunedChanges.mp hp
    refine ⟨⟨r, hr, hname⟩, ?_⟩
    rw [hname, ← Relation.value?_prunedIn_of_change hv]
    exact value?_foldl_prunedIn_self (chosen_nodup hn only) hr d
  others _ h := value?_prunedIn_of_unreported hn h
  keys := Relation.keys_foldl_prunedIn s _ d

/-- **Exactly the dangling ids go.** Following the chosen relations of any document with pruning
leaves the store as it is and surely succeeds, unless it is cancelled or a call fails. For each
chosen relation the ids of entities that exist are left; what is reported is what was taken out;
and following the relations of the pruned document changes and reports nothing. -/
theorem resolve_prunes (hn : (sc.relations.map Relation.idField).Nodup) (hk : s.Keyed)
    (w : Surroundings) (viewer : Viewer) (only : Option (List String)) (d : Document) :
    Tells w s (w.cancels ∨ w.fails) (fun out => sc.Pruned s only d out ∧
        Tells w s (w.cancels ∨ w.fails) (· = (out.1, []))
          (sc.resolve viewer ⟨true, false⟩ only out.1))
      (sc.resolve viewer ⟨true, false⟩ only d) := by
  have hfollow := fun x => tells_follow hn (Or.inl (b := w.fails)) Or.inr hk viewer only x
  refine (hfollow d).mono fun out hout => ?_
  subst hout
  refine ⟨pruned hn s only d, (hfollow _).mono fun again hagain => ?_⟩
  rw [hagain, prunedIn_prunedIn hn, prunedFields_prunedIn hn]

end Schema

/-! ### A contact with scattered references -/

namespace Directory

/-- One category, and nobody to be a manager. -/
def oneCategory : Store := ⟨[("categories", [(.ofByte 1, [("id", Value.ofUuid (.ofByte 1))])])]⟩

theorem oneCategory_keyed : oneCategory.Keyed := by
  intro name
  by_cases h : name = "categories"
  · subst h
    exact ⟨by decide, fun e he => by rw [List.mem_singleton.mp he]; rfl⟩
  · have hnone : oneCategory.entries name = [] := by
      simp [Store.entries, Store.collection?, oneCategory, Ne.symm h]
    rw [hnone]
    exact Entries.Keyed.nil

/-- The fields of a contact, with categories that are there twice, in another spelling, missing
and no ids at all. -/
def scattered : Document :=
  [("category_ids", .array [Value.ofUuid (.ofByte 1), Value.ofUuid (.ofByte 9), .int32 3,
     .string (Uuid.ofByte 1).text, .null]),
   ("manager_id", .string (Uuid.ofByte 9).text),
   ("phone_book_ids", .array [.int32 3]),
   ("secretary_ids", Value.ofUuids [.ofByte 8])]

def categoriesRelation : Relation := ⟨"category_ids", "categories", "categories", .many⟩

def booksRelation : Relation := ⟨"phone_book_ids", "phone_books", "phone_books", .many⟩

def someRelations : Option (List String) := some ["CategoryIds", "manager", "phone_books"]

/-- The categories that exist are left, the missing manager is gone, and the field for the phone
books, which holds no id, is left as it is. -/
theorem scattered_pruned : oneCategory.Keyed ∧
    (Contact.schema.relations.map Relation.idField).Nodup ∧
    ∃ out, (Contact.schema.resolve none ⟨true, false⟩ someRelations scattered).run.Runs .calm
        oneCategory (.ok out) oneCategory ∧
      Contact.schema.Pruned oneCategory someRelations scattered out ∧
      categoriesRelation.targetIds out.1 = [.ofByte 1, .ofByte 1] ∧
      "manager_id" ∈ Document.keys out.2 ∧
      out.1.value? "phone_book_ids" = some (.array [.int32 3]) := by
  have hn : (Contact.schema.relations.map Relation.idField).Nodup := by decide
  refine ⟨oneCategory_keyed, hn, ?_⟩
  obtain ⟨r, t, hrun⟩ := Program.exists_runs (w := .calm) ⟨.ofByte 1, trivial⟩
    (Contact.schema.resolve none ⟨true, false⟩ someRelations scattered).run oneCategory
  obtain ⟨rfl, hout⟩ := Schema.resolve_prunes hn oneCategory_keyed .calm none _ scattered r t hrun
  cases r with
  | error e => exact (hout.elim id id).elim
  | ok out =>
    obtain ⟨hpruned, -⟩ := hout
    refine ⟨out, hrun, hpruned, ?_, ?_, ?_⟩
    · rw [hpruned.kept categoriesRelation (by decide +kernel)]
      decide +kernel
    · refine (hpruned.named managerRelation (.tail _ (.head _))).mpr ?_
      rw [hpruned.kept managerRelation (by decide +kernel)]
      decide +kernel
    · refine hpruned.others "phone_book_ids" fun hreported => ?_
      have hlost := (hpruned.named booksRelation (by decide +kernel)).mp hreported
      rw [hpruned.kept booksRelation (by decide +kernel)] at hlost
      exact hlost rfl

end Directory

end Registrar
