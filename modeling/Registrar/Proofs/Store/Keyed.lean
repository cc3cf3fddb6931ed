import Registrar.Proofs.Store.Writing
import Registrar.Store.Call
import Mathlib.Data.List.Nodup

/-!
# Stores that keep documents under their ids

The engine finds an entity by the `id` field of its document, and the store keeps the document
under a uuid of its own. In a **keyed** store the two agree, names of collections and uuids are
each used once, and so a filter for an id meets one entry at most.

* `entries_modify`, `entries_insert`: what a write does to the collections.
* `mem_updateFirst`, `mem_updateAll`: the entries after an update.
* `Entries.Keyed`: every document is kept under its own id, and no uuid is used twice.
* `Keyed.insert`, `Keyed.updateFirst`: writes that leave ids alone keep entries keyed.
* `hasId_holds`, `hasIdIn_holds`: filters for ids of keyed documents.
-/

namespace Registrar

/-! ### Collections under writes -/

namespace Store

theorem collection?_modify (s : Store) (name other : String) (f : Entries → Entries) :
    (s.modify name f).collection? other =
      if other = name then (s.collection? name).map f else s.collection? other := by
  obtain ⟨cs⟩ := s
  simp only [collection?, modify]
  induction cs with
  | nil => simp
  | cons c cs ih =>
    obtain ⟨n, es⟩ := c
    rw [List.map_cons, List.find?_cons, List.find?_cons, List.find?_cons]
    by_cases hn : n = name
    · subst hn
      by_cases ho : n = other
      · subst ho
        simp
      · have hb : (n == other) = false := by simpa using ho
        rw [if_neg (Ne.symm ho)] at ih ⊢
        simpa only [beq_self_eq_true, if_true, hb] using ih
    · by_cases ho : n = other
      · subst ho
        simp [hn]
      · have hb : (n == name) = false := by simpa using hn
        have hb' : (n == other) = false := by simpa using ho
        simpa only [hb, hb', Bool.false_eq_true, if_false] using ih

/-- **A write changes the entries of its collection** and of no other. -/
theorem entries_modify (s : Store) (name other : String) {f : Entries → Entries}
    (hf : f [] = []) :
    (s.modify name f).entries other = if other = name then f (s.entries name)
      else s.entries other := by
  simp only [entries, collection?_modify]
  split
  · cases s.collection? name <;> simp [hf]
  · rfl

theorem find?_append_new (cs : List (String × Entries)) (name other : String) :
    ((cs ++ [(name, ([] : Entries))]).find? (·.1 == other)).map Prod.snd =
      if (cs.find? (·.1 == other)).isSome then (cs.find? (·.1 == other)).map Prod.snd
      else if name = other then some [] else none := by
  rw [List.find?_append]
  cases cs.find? (·.1 == other) with
  | some c => rfl
  | none => by_cases h : name = other <;> simp [h]

theorem collection?_create_of_ne (s : Store) {name other : String} (h : other ≠ name) :
    (s.create name).collection? other = s.collection? other := by
  rw [create]
  split
  · rfl
  · rw [collection?, find?_append_new, collection?]
    cases s.collections.find? (·.1 == other) <;> simp [Ne.symm h]

theorem collection?_create_self (s : Store) (name : String) :
    (s.create name).collection? name = some (s.entries name) := by
  rw [create]
  split
  · rename_i h
    obtain ⟨es, hs⟩ := Option.isSome_iff_exists.mp h
    rw [entries, hs, Option.getD_some]
  · rename_i h
    have hn : s.collection? name = none := by simpa using h
    rw [entries, hn, collection?, find?_append_new]
    rw [collection?, Option.map_eq_none_iff] at hn
    simp [hn]

/-- **An insertion adds one entry**, under a uuid that was free. -/
theorem entries_insert {s t : Store} {id : Uuid} {d : Document} {name : String}
    (h : s.insert id d name = .ok t) (other : String) :
    t.entries other = if other = name then (s.entries name).insert id d else s.entries other := by
  unfold insert at h
  split at h
  · cases h
  · cases h
    rw [entries, collection?_modify]
    split
    · rw [collection?_create_self, Option.map_some, Option.getD_some]
    · rename_i hn
      rw [collection?_create_of_ne s hn, entries]

theorem hasKey_of_insert {s t : Store} {id : Uuid} {d : Document} {name : String}
    (h : s.insert id d name = .ok t) : (s.entries name).hasKey id = false := by
  unfold insert at h
  split at h
  · cases h
  · rename_i hk
    simpa using hk

end Store

/-! ### Entries -/

namespace Entries

variable {es : Entries} {f : Filter} {u : Update}

theorem hasKey_eq_false_iff {id : Uuid} : es.hasKey id = false ↔ id ∉ es.map Prod.fst := by
  rw [hasKey, Bool.eq_false_iff, Ne, List.any_eq_true, List.mem_map]
  simp

theorem insert_perm (es : Entries) (id : Uuid) (d : Document) :
    (es.insert id d).Perm ((id, d) :: es) := by
  induction es with
  | nil => exact List.Perm.refl _
  | cons e r ih =>
    rw [insert]
    split
    · exact List.Perm.refl _
    · exact (ih.cons e).trans (List.Perm.swap _ _ _)

theorem mem_insert {id : Uuid} {d : Document} {e : Uuid × Document} :
    e ∈ es.insert id d ↔ e = (id, d) ∨ e ∈ es := by
  rw [(insert_perm es id d).mem_iff, List.mem_cons]

theorem eq_of_mem (hk : (es.map Prod.fst).Nodup) {id : Uuid} {d d' : Document}
    (h : (id, d) ∈ es) (h' : (id, d') ∈ es) : d = d' := by
  have := List.inj_on_of_nodup_map hk h h' rfl
  exact (Prod.mk.inj this).2

theorem updateFirst_of_none (h : ∀ e ∈ es, f.holds e.2 = false) : es.updateFirst f u = es := by
  induction es with
  | nil => rfl
  | cons e r ih =>
    have he : meets f e = false := h e List.mem_cons_self
    rw [updateFirst, he, ih fun x hx => h x (List.mem_cons_of_mem e hx)]
    rfl

theorem updateAll_of_none (h : ∀ e ∈ es, f.holds e.2 = false) : es.updateAll f u = es := by
  rw [updateAll]
  refine (List.map_congr_left fun e he => ?_).trans (List.map_id es)
  rw [if_neg (by rw [meets, h e he]; decide), id]

theorem map_fst_updateFirst (es : Entries) (f : Filter) (u : Update) :
    (es.updateFirst f u).map Prod.fst = es.map Prod.fst := by
  induction es with
  | nil => rfl
  | cons e r ih =>
    rw [updateFirst]
    split
    · rfl
    · rw [List.map_cons, List.map_cons, ih]

theorem map_fst_updateAll (es : Entries) (f : Filter) (u : Update) :
    (es.updateAll f u).map Prod.fst = es.map Prod.fst := by
  rw [updateAll, List.map_map]
  refine List.map_congr_left fun e _ => ?_
  simp only [Function.comp_apply]
  split <;> rfl

theorem mem_updateAll {e : Uuid × Document} :
    e ∈ es.updateAll f u ↔
      (e ∈ es ∧ f.holds e.2 = false) ∨ ∃ d, (e.1, d) ∈ es ∧ f.holds d = true ∧ e.2 = u.apply d := by
  rw [updateAll, List.mem_map]
  constructor
  · rintro ⟨x, hx, rfl⟩
    by_cases hm : meets f x = true
    · rw [if_pos hm]
      exact .inr ⟨x.2, hx, hm, rfl⟩
    · rw [if_neg hm]
      exact .inl ⟨hx, by simpa [meets] using hm⟩
  · rintro (⟨he, hm⟩ | ⟨d, hd, hm, hu⟩)
    · exact ⟨e, he, by simp [meets, hm]⟩
    · refine ⟨(e.1, d), hd, ?_⟩
      have hmeets : meets f (e.1, d) = true := hm
      rw [if_pos hmeets, ← hu]

theorem mem_updateFirst_cases {e : Uuid × Document} (h : e ∈ es.updateFirst f u) :
    e ∈ es ∨ ∃ d, (e.1, d) ∈ es ∧ f.holds d = true ∧ e.2 = u.apply d := by
  induction es with
  | nil => exact absurd h (by simp [updateFirst])
  | cons x r ih =>
    rw [updateFirst] at h
    split at h
    · rename_i hm
      rcases List.mem_cons.mp h with rfl | h
      · exact .inr ⟨x.2, List.mem_cons_self, hm, rfl⟩
      · exact .inl (List.mem_cons_of_mem x h)
    · rcases List.mem_cons.mp h with rfl | h
      · exact .inl List.mem_cons_self
      · rcases ih h with h | ⟨d, hd, hm, hu⟩
        · exact .inl (List.mem_cons_of_mem x h)
        · exact .inr ⟨d, List.mem_cons_of_mem x hd, hm, hu⟩

/-- **What an update of one entry leaves**, when uuids are used once. -/
theorem mem_updateFirst (hk : (es.map Prod.fst).Nodup) {e : Uuid × Document} :
    e ∈ es.updateFirst f u ↔ (e ∈ es ∧ ∀ d, es.find? (meets f) ≠ some (e.1, d)) ∨
      ∃ d, es.find? (meets f) = some (e.1, d) ∧ e.2 = u.apply d := by
  induction es with
  | nil => simp [updateFirst]
  | cons x r ih =>
    rw [List.map_cons, List.nodup_cons] at hk
    rw [updateFirst]
    by_cases hm : meets f x = true
    · rw [if_pos hm, List.find?_cons_of_pos hm, List.mem_cons]
      constructor
      · rintro (rfl | he)
        · exact .inr ⟨x.2, rfl, rfl⟩
        · refine .inl ⟨List.mem_cons_of_mem x he, fun d hd => hk.1 ?_⟩
          rw [Option.some.inj hd]
          exact List.mem_map.mpr ⟨e, he, rfl⟩
      · rintro (⟨he, hd⟩ | ⟨d, hd, hu⟩)
        · rcases List.mem_cons.mp he with rfl | he
          · exact absurd rfl (hd e.2)
          · exact .inr he
        · cases hd
          exact .inl (Prod.ext rfl hu)
    · rw [if_neg hm, List.find?_cons_of_neg hm, List.mem_cons, List.mem_cons, ih hk.2]
      constructor
      · rintro (rfl | ⟨he, hd⟩ | h)
        · refine .inl ⟨.inl rfl, fun d hd => hk.1 ?_⟩
          exact List.mem_map.mpr ⟨_, List.mem_of_find?_eq_some hd, rfl⟩
        · exact .inl ⟨.inr he, hd⟩
        · exact .inr h
      · rintro (⟨rfl | he, hd⟩ | h)
        · exact .inl rfl
        · exact .inr (.inl ⟨he, hd⟩)
        · exact .inr (.inr h)

theorem find?_meets (hk : (es.map Prod.fst).Nodup) {id : Uuid} {d : Document} (hd : (id, d) ∈ es)
    (hf : f.holds d = true) (h : ∀ e ∈ es, f.holds e.2 = true → e.1 = id) :
    es.find? (meets f) = some (id, d) := by
  cases he : es.find? (meets f) with
  | none => exact absurd hf (List.find?_eq_none.mp he _ hd)
  | some e =>
    obtain ⟨k, d'⟩ := e
    have hm := List.mem_of_find?_eq_some he
    have hmeets : meets f (k, d') = true := List.find?_some he
    obtain rfl : k = id := h _ hm hmeets
    rw [eq_of_mem hk hm hd]

theorem mem_deleteFirst (hk : (es.map Prod.fst).Nodup) {e : Uuid × Document} :
    e ∈ es.deleteFirst f ↔ e ∈ es ∧ ∀ d, es.find? (meets f) ≠ some (e.1, d) := by
  induction es with
  | nil => simp [deleteFirst]
  | cons x r ih =>
    rw [List.map_cons, List.nodup_cons] at hk
    rw [deleteFirst] at ih ⊢
    by_cases hm : meets f x = true
    · rw [List.eraseP_cons_of_pos hm, List.find?_cons_of_pos hm, List.mem_cons]
      constructor
      · intro he
        refine ⟨.inr he, fun d hd => hk.1 ?_⟩
        rw [Option.some.inj hd]
        exact List.mem_map.mpr ⟨e, he, rfl⟩
      · rintro ⟨rfl | he, hd⟩
        · exact absurd rfl (hd e.2)
        · exact he
    · rw [List.eraseP_cons_of_neg hm, List.find?_cons_of_neg hm, List.mem_cons, List.mem_cons,
        ih hk.2]
      constructor
      · rintro (rfl | ⟨he, hd⟩)
        · refine ⟨.inl rfl, fun d hd => hk.1 ?_⟩
          exact List.mem_map.mpr ⟨_, List.mem_of_find?_eq_some hd, rfl⟩
        · exact ⟨.inr he, hd⟩
      · rintro ⟨rfl | he, hd⟩
        · exact .inl rfl
        · exact .inr ⟨he, hd⟩

theorem mem_deleteAll {e : Uuid × Document} :
    e ∈ es.deleteAll f ↔ e ∈ es ∧ f.holds e.2 = false := by
  rw [deleteAll, List.mem_filter, meets, Bool.not_eq_true']

theorem deleteFirst_sublist (es : Entries) (f : Filter) : (es.deleteFirst f).Sublist es :=
  List.eraseP_sublist

theorem deleteAll_sublist (es : Entries) (f : Filter) : (es.deleteAll f).Sublist es :=
  List.filter_sublist

/-! ### Keyed entries -/

/-- **Every document is kept under its own id**, and no uuid is used twice. -/
structure Keyed (es : Entries) : Prop where
  nodup : (es.map Prod.fst).Nodup
  id : ∀ e ∈ es, Document.value? e.2 "id" = some (Value.ofUuid e.1)

namespace Keyed

theorem nil : Keyed [] := ⟨List.nodup_nil, by simp⟩

theorem insert (h : es.Keyed) {id : Uuid} {d : Document} (hk : es.hasKey id = false)
    (hd : Document.value? d "id" = some (Value.ofUuid id)) : (es.insert id d).Keyed where
  nodup := by
    rw [((insert_perm es id d).map Prod.fst).nodup_iff, List.map_cons, List.nodup_cons]
    exact ⟨hasKey_eq_false_iff.mp hk, h.nodup⟩
  id := by
    intro e he
    rcases mem_insert.mp he with rfl | he
    · exact hd
    · exact h.id e he

theorem updateFirst (h : es.Keyed) (f : Filter) (hu : u.Spares "id") :
    (es.updateFirst f u).Keyed where
  nodup := by
    rw [map_fst_updateFirst]
    exact h.nodup
  id := by
    intro e he
    rcases mem_updateFirst_cases he with he | ⟨d, hd, -, hu'⟩
    · exact h.id e he
    · rw [hu', Update.value?_apply_of_spares hu]
      exact h.id _ hd

theorem updateAll (h : es.Keyed) (f : Filter) (hu : u.Spares "id") :
    (es.updateAll f u).Keyed where
  nodup := by
    rw [map_fst_updateAll]
    exact h.nodup
  id := by
    intro e he
    rcases mem_updateAll.mp he with ⟨he, -⟩ | ⟨d, hd, -, hu'⟩
    · exact h.id e he
    · rw [hu', Update.value?_apply_of_spares hu]
      exact h.id _ hd

theorem documents_nodup (h : es.Keyed) : es.documents.Nodup := by
  refine List.Nodup.map_on (fun x hx y hy heq => ?_) h.nodup.of_map
  have hid : Value.ofUuid x.1 = Value.ofUuid y.1 := by
    refine Option.some.inj ?_
    rw [← h.id x hx, ← h.id y hy, heq]
  have hkey : x.1 = y.1 := by
    refine Option.some.inj ?_
    rw [← Value.uuid?_ofUuid x.1, ← Value.uuid?_ofUuid y.1, hid]
  exact Prod.ext hkey heq

theorem sublist (h : es.Keyed) {es' : Entries} (hs : es'.Sublist es) : es'.Keyed :=
  ⟨h.nodup.sublist (hs.map Prod.fst), fun e he => h.id e (hs.subset he)⟩

end Keyed

/-- The document that is kept under a uuid. -/
def document? (es : Entries) (id : Uuid) : Option Document :=
  (es.find? (·.1 == id)).map Prod.snd

/-- A search for the first entry with a uuid finds what the list holds under it, if entries with
one uuid hold one document. -/
theorem document?_eq_some {id : Uuid} {d : Document}
    (h : ∀ d', (id, d') ∈ es → (id, d) ∈ es → d' = d) :
    es.document? id = some d ↔ (id, d) ∈ es := by
  rw [document?, Option.map_eq_some_iff]
  constructor
  · rintro ⟨⟨k, d'⟩, he, rfl⟩
    have hk := List.find?_some he
    obtain rfl : k = id := by simpa using hk
    exact List.mem_of_find?_eq_some he
  · intro hm
    cases he : es.find? (·.1 == id) with
    | none => exact absurd (List.find?_eq_none.mp he _ hm) (by simp)
    | some e =>
      obtain ⟨k, d'⟩ := e
      have hk := List.find?_some he
      obtain rfl : k = id := by simpa using hk
      exact ⟨_, rfl, h d' (List.mem_of_find?_eq_some he) hm⟩

theorem Keyed.document?_eq_some (hk : es.Keyed) {id : Uuid} {d : Document} :
    es.document? id = some d ↔ (id, d) ∈ es :=
  Entries.document?_eq_some fun _ h h' => eq_of_mem hk.nodup h h'

end Entries

namespace Store

variable {s : Store} {f : Filter} {name : String}

theorem insert_inj {t : Store} {id id' : Uuid} {d d' : Document} (h : s.insert id d name = .ok t)
    (h' : s.insert id' d' name = .ok t) : id = id' ∧ d = d' := by
  have hmem : (id, d) ∈ (s.entries name).insert id' d' := by
    have hent := (entries_insert h name).symm.trans (entries_insert h' name)
    rw [if_pos rfl, if_pos rfl] at hent
    exact hent ▸ Entries.mem_insert.mpr (.inl rfl)
  rcases Entries.mem_insert.mp hmem with heq | hold
  · exact Prod.mk.inj heq
  · exact absurd (List.mem_map_of_mem hold) (Entries.hasKey_eq_false_iff.mp (hasKey_of_insert h))

theorem updateFirst_of_none (h : ∀ e ∈ s.entries name, f.holds e.2 = false) (u : Update) :
    (s.updateFirst f u name).2 = 0 ∧
      ∀ other, (s.updateFirst f u name).1.entries other = s.entries other := by
  constructor
  · have hnil : (s.entries name).filter (Entries.meets f) = [] := by
      refine List.filter_eq_nil_iff.mpr fun e he hm => ?_
      rw [Entries.meets, h e he] at hm
      cases hm
    rw [updateFirst, matched, hnil]
    rfl
  · intro other
    rw [updateFirst, entries_modify s name other rfl]
    split
    · rename_i ho
      rw [Entries.updateFirst_of_none h, ho]
    · rfl

theorem updateFirst_of_mem {e : Uuid × Document} (he : e ∈ s.entries name)
    (hf : f.holds e.2 = true) (u : Update) : (s.updateFirst f u name).2 = 1 := by
  have hpos : 0 < s.matched f name :=
    List.length_pos_of_mem (List.mem_filter.mpr ⟨he, hf⟩)
  rw [updateFirst]
  exact Nat.min_eq_left hpos

theorem mem_of_mem_deleteFirst {f : Filter} {e : Uuid × Document}
    (h : e ∈ (s.deleteFirst f name).1.entries name) : e ∈ s.entries name := by
  rw [deleteFirst, entries_modify _ _ _ rfl, if_pos rfl] at h
  exact (Entries.deleteFirst_sublist _ _).subset h

theorem mem_of_mem_deleteAll {f : Filter} {e : Uuid × Document}
    (h : e ∈ (s.deleteAll f name).1.entries name) : e ∈ s.entries name := by
  rw [deleteAll, entries_modify _ _ _ rfl, if_pos rfl] at h
  exact (Entries.deleteAll_sublist _ _).subset h

end Store

/-- The store holds a document under the id. -/
def Store.Has (s : Store) (name : String) (id : Uuid) : Prop := id ∈ (s.entries name).map Prod.fst

theorem Store.has_iff {s : Store} {name : String} {id : Uuid} :
    s.Has name id ↔ ∃ d, (id, d) ∈ s.entries name := by
  rw [Has, List.mem_map]
  constructor
  · rintro ⟨⟨k, d⟩, hm, rfl⟩
    exact ⟨d, hm⟩
  · rintro ⟨d, hm⟩
    exact ⟨_, hm, rfl⟩

theorem Store.isSome_document? {s : Store} {name : String} {id : Uuid} :
    ((s.entries name).document? id).isSome = true ↔ s.Has name id := by
  rw [Entries.document?, Option.isSome_map, List.find?_isSome, has_iff]
  constructor
  · rintro ⟨e, he, hid⟩
    obtain rfl : e.1 = id := by simpa using hid
    exact ⟨e.2, he⟩
  · rintro ⟨d, hd⟩
    exact ⟨(id, d), hd, by simp⟩

/-- **A keyed store**: every collection keeps its documents under their ids. -/
def Store.Keyed (s : Store) : Prop := ∀ name, (s.entries name).Keyed

/-! ### Filters for ids -/

namespace Document

theorem reached_of_dotless (d : Document) {name : String} (h : '.' ∉ name.toList) :
    d.reached name = (d.value? name).toList := by
  rw [reached, Text.segments_of_dotless h, Value.reach]
  cases value? d name <;> rfl

theorem candidates_of_value? {d : Document} {name : String} {v : Value}
    (h : '.' ∉ name.toList) (hv : d.value? name = some v) (ha : v.array? = none) :
    d.candidates name = [v] := by
  rw [candidates, reached_of_dotless d h, hv]
  cases v <;> first | rfl | cases ha

end Document

namespace Value

theorem ofUuid_equalTo {a b : Uuid} : (ofUuid a).equalTo (ofUuid b) = true ↔ a = b := by
  have h : (ofUuid a).equalTo (ofUuid b) = (a.bytes == b.bytes) := by
    simp [ofUuid, equalTo, scalarEqualTo]
  rw [h, beq_iff_eq]
  constructor
  · intro hb
    cases a
    cases b
    cases hb
    rfl
  · exact congrArg Uuid.bytes

end Value

namespace Filter

variable {d : Document} {k : Uuid}

theorem candidates_id (h : d.value? "id" = some (Value.ofUuid k)) :
    d.candidates "id" = [Value.ofUuid k] :=
  Document.candidates_of_value? (by decide) h rfl

theorem hasId_holds (h : d.value? "id" = some (Value.ofUuid k)) (id : Uuid) :
    (hasId id).holds d = true ↔ k = id := by
  rw [hasId, eq, holds, candidates_id h, Comparison.holds]
  simp [Value.ofUuid_equalTo]

theorem hasIdIn_holds (h : d.value? "id" = some (Value.ofUuid k)) (ids : List Uuid) :
    (hasIdIn ids).holds d = true ↔ k ∈ ids := by
  rw [hasIdIn, holds, candidates_id h, Comparison.holds]
  simp [Value.ofUuids, Value.options, Value.ofUuid_equalTo]

theorem and_pair_holds (f g : Filter) :
    (Filter.and [f, g]).holds d = true ↔ f.holds d = true ∧ g.holds d = true := by
  simp [holds, holdsAll]

end Filter

end Registrar
