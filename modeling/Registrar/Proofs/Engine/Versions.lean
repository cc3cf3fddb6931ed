import Registrar.Proofs.Double.Whole
import Registrar.Proofs.Engine.Operations
import Registrar.Proofs.Program.Interleaving
import Registrar.Proofs.Store.Keyed

/-!
# Versions of stored documents

A collection whose schema has a version field counts the writes of each document. What a request
**concerns** is the documents that it inserts, updates or deletes. Documents that a request does not
concern stay as they are. One that it does concern is gone afterwards or has the next version, so
the version tells whether a document has been written at all.

* `Request.Concerns`: the documents that a request writes.
* `writes_reply`: what an engine request does to the entries of its collection.
* `mem_iff_of_not_concerned`, `cases_of_concerned`: what becomes of a document.
* `Versioned`: every document tells a version that is not negative.
* `next_version`: a document that is concerned and stays has the next version.
* `Writes.versioned`: engine requests keep collections versioned.
-/

namespace Registrar

/-! ### What a request concerns -/

/-- The documents of a collection that a call inserts, updates or deletes. -/
def StoreCall.Concerns (s : Store) (name : String) (id : Uuid) : StoreCall → Prop
  | .insert k _ n => n = name ∧ k = id ∧ (s.entries name).hasKey id = false
  | .updateFirst f _ n | .deleteFirst f n =>
    n = name ∧ ∃ d, (s.entries name).find? (Entries.meets f) = some (id, d)
  | .updateAll f _ n | .deleteAll f n => n = name ∧ ∃ d, (id, d) ∈ s.entries name ∧ f.holds d = true
  | .dropCollection n => n = name
  | .find _ _ | .count _ _ | .createCollection _ | .listCollections => False

/-- **The documents that a request writes.** -/
def Request.Concerns (s : Store) (name : String) (id : Uuid) : Request → Prop
  | .store call => call.Concerns s name id
  | .isCancelled | .newId | .now => False

namespace Collection

variable {E : Type} {c : Collection E}

/-- **What a request of an operation does to the entries of its collection**, with the documents
that it concerns. -/
inductive Writes (c : Collection E) (es : Entries) : Entries → (Uuid → Prop) → Prop
  | nothing : Writes c es es fun _ => False
  | insert (id : Uuid) (d : Document) (free : es.hasKey id = false)
      (own : d.value? "id" = some (Value.ofUuid id))
      (zero : ∀ field, c.schema.versionName? = some field → d.value? field = some (.int64 0)) :
      Writes c es (es.insert id d) fun k => k = id
  | updateFirst (f : Filter) (u : Update) (incs : u.incs = []) (sets : c.schema.PermitsAll u.sets) :
      Writes c es (es.updateFirst f (c.withVersion u)) fun k =>
        ∃ d, es.find? (Entries.meets f) = some (k, d)
  | updateAll (f : Filter) (u : Update) (incs : u.incs = []) (sets : c.schema.PermitsAll u.sets) :
      Writes c es (es.updateAll f (c.withVersion u)) fun k => ∃ d, (k, d) ∈ es ∧ f.holds d = true
  | deleteFirst (f : Filter) :
      Writes c es (es.deleteFirst f) fun k => ∃ d, es.find? (Entries.meets f) = some (k, d)
  | deleteAll (f : Filter) :
      Writes c es (es.deleteAll f) fun k => ∃ d, (k, d) ∈ es ∧ f.holds d = true

/-- **Each request of an operation does one of these things.** -/
theorem writes_reply {w : Surroundings} {s t : Store} {r : Request} {a : r.Answer}
    (hi : c.Issues r) (h : w.Reply s r a t) :
    c.Writes (s.entries c.name) (t.entries c.name) (r.Concerns s c.name) := by
  have hquiet : t = s → (∀ id, ¬ r.Concerns s c.name id) →
      c.Writes (s.entries c.name) (t.entries c.name) (r.Concerns s c.name) := by
    intro ht hc
    rw [ht, funext fun id => eq_false (hc id)]
    exact .nothing
  have hconcerns : ∀ {p : Uuid → Prop}, (∀ id, r.Concerns s c.name id ↔ p id) →
      r.Concerns s c.name = p := fun h => funext fun id => propext (h id)
  cases r with
  | store call =>
    cases call with
    | insert id d name =>
      obtain ⟨rfl, hid, hz⟩ := hi
      have hr : (a, t) = s.serve (.insert id d c.name) := h.replies rfl
      rw [Store.serve] at hr
      cases hs : s.insert id d c.name with
      | ok s' =>
        rw [hs] at hr
        cases hr
        have hf := Store.hasKey_of_insert hs
        have hc : ∀ k, Request.Concerns s c.name k (.store (.insert id d c.name)) ↔ k = id :=
          fun k => ⟨fun h => h.2.1.symm, fun h => ⟨rfl, h.symm, h ▸ hf⟩⟩
        rw [hconcerns hc, Store.entries_insert hs, if_pos rfl]
        exact .insert id d hf hid hz
      | error e =>
        rw [hs] at hr
        cases hr
        refine hquiet rfl ?_
        rintro k ⟨-, rfl, hf⟩
        rw [Store.insert, hf] at hs
        cases hs
    | updateFirst f u name =>
      obtain ⟨rfl, v, hinc, hsets, rfl⟩ := hi
      have ht : t = (s.updateFirst f (c.withVersion v) c.name).1 := congrArg Prod.snd (h.replies rfl)
      rw [hconcerns fun k => and_iff_right rfl, ht, Store.updateFirst,
        Store.entries_modify _ _ _ rfl, if_pos rfl]
      exact .updateFirst f v hinc hsets
    | updateAll f u name =>
      obtain ⟨rfl, v, hinc, hsets, rfl⟩ := hi
      have ht : t = (s.updateAll f (c.withVersion v) c.name).1 := congrArg Prod.snd (h.replies rfl)
      rw [hconcerns fun k => and_iff_right rfl, ht, Store.updateAll,
        Store.entries_modify _ _ _ rfl, if_pos rfl]
      exact .updateAll f v hinc hsets
    | deleteFirst f name =>
      obtain rfl : name = c.name := hi
      have ht : t = (s.deleteFirst f c.name).1 := congrArg Prod.snd (h.replies rfl)
      rw [hconcerns fun k => and_iff_right rfl, ht, Store.deleteFirst,
        Store.entries_modify _ _ _ rfl, if_pos rfl]
      exact .deleteFirst f
    | deleteAll f name =>
      obtain rfl : name = c.name := hi
      have ht : t = (s.deleteAll f c.name).1 := congrArg Prod.snd (h.replies rfl)
      rw [hconcerns fun k => and_iff_right rfl, ht, Store.deleteAll,
        Store.entries_modify _ _ _ rfl, if_pos rfl]
      exact .deleteAll f
    | createCollection name => exact hi.elim
    | dropCollection name => exact hi.elim
    | find query name => exact hquiet (h.eq_of_isQuiet rfl) fun _ => id
    | count filter name => exact hquiet (h.eq_of_isQuiet rfl) fun _ => id
    | listCollections => exact hquiet (h.eq_of_isQuiet rfl) fun _ => id
  | isCancelled => exact hquiet (h.eq_of_isQuiet rfl) fun _ => id
  | newId => exact hquiet (h.eq_of_isQuiet rfl) fun _ => id
  | now => exact hquiet (h.eq_of_isQuiet rfl) fun _ => id

namespace Writes

variable {es es' : Entries} {concerned : Uuid → Prop}

theorem spares_id (hs : c.schema.Lawful) {u : Update} (hi : u.incs = [])
    (hu : c.schema.PermitsAll u.sets) : (c.withVersion u).Spares "id" := by
  obtain ⟨h1, h2⟩ := Schema.spares_id hs hu hi
  rw [withVersion]
  split
  · rename_i field hv
    refine ⟨h1, fun i hm => ?_⟩
    rw [Update.inc, hi] at hm
    rw [List.mem_singleton.mp hm]
    obtain ⟨f, hf, -, hn⟩ := Schema.versionName?_eq_some hv
    have hd : '.' ∉ field.toList := hn ▸ hs.dotless f hf
    rw [Text.headSegment_of_dotless hd]
    exact (Schema.versionName?_ne_id hs hv).symm
  · exact ⟨h1, h2⟩

theorem keyed (h : c.Writes es es' concerned) (hs : c.schema.Lawful) (hk : es.Keyed) :
    es'.Keyed := by
  cases h with
  | nothing => exact hk
  | insert id d free own _ => exact hk.insert free own
  | updateFirst f u hi hu => exact hk.updateFirst f (spares_id hs hi hu)
  | updateAll f u hi hu => exact hk.updateAll f (spares_id hs hi hu)
  | deleteFirst f => exact hk.sublist (Entries.deleteFirst_sublist es f)
  | deleteAll f => exact hk.sublist (Entries.deleteAll_sublist es f)

/-- **A document that is not concerned stays as it is.** -/
theorem mem_iff_of_not_concerned (h : c.Writes es es' concerned) (hk : es.Keyed) {id : Uuid}
    (hc : ¬ concerned id) (d : Document) : (id, d) ∈ es' ↔ (id, d) ∈ es := by
  cases h with
  | nothing => exact Iff.rfl
  | insert k _ _ _ _ =>
    rw [Entries.mem_insert]
    exact or_iff_right fun he => hc (Prod.mk.inj he).1
  | updateFirst f u _ _ =>
    rw [Entries.mem_updateFirst hk.nodup]
    constructor
    · rintro (⟨hm, -⟩ | ⟨d', hd', -⟩)
      · exact hm
      · exact absurd ⟨d', hd'⟩ hc
    · exact fun hm => .inl ⟨hm, fun d' hd' => hc ⟨d', hd'⟩⟩
  | updateAll f u _ _ =>
    rw [Entries.mem_updateAll]
    constructor
    · rintro (⟨hm, -⟩ | ⟨d', hd', hf, -⟩)
      · exact hm
      · exact absurd ⟨d', hd', hf⟩ hc
    · refine fun hm => .inl ⟨hm, ?_⟩
      by_contra hf
      exact hc ⟨d, hm, by simpa using hf⟩
  | deleteFirst f =>
    rw [Entries.mem_deleteFirst hk.nodup]
    exact and_iff_left fun d' hd' => hc ⟨d', hd'⟩
  | deleteAll f =>
    rw [Entries.mem_deleteAll]
    constructor
    · exact And.left
    · refine fun hm => ⟨hm, ?_⟩
      by_contra hf
      exact hc ⟨d, hm, by simpa using hf⟩

/-- **A document that is concerned** is new, or was updated and counts one more write. -/
theorem cases_of_concerned (h : c.Writes es es' concerned) (hk : es.Keyed) {id : Uuid}
    (hc : concerned id) {d : Document} (hd : (id, d) ∈ es') :
    (id ∉ es.map Prod.fst ∧
        ∀ field, c.schema.versionName? = some field → d.value? field = some (.int64 0)) ∨
      ∃ d' u, (id, d') ∈ es ∧ u.incs = [] ∧ c.schema.PermitsAll u.sets ∧
        d = (c.withVersion u).apply d' := by
  cases h with
  | nothing => exact hc.elim
  | insert k d' free _ zero =>
    obtain rfl : id = k := hc
    have hnew := Entries.hasKey_eq_false_iff.mp free
    rcases Entries.mem_insert.mp hd with he | hm
    · cases he
      exact .inl ⟨hnew, zero⟩
    · exact absurd (List.mem_map.mpr ⟨_, hm, rfl⟩) hnew
  | updateFirst f u hi hu =>
    obtain ⟨d', hd'⟩ := hc
    rcases (Entries.mem_updateFirst hk.nodup).mp hd with ⟨-, hn⟩ | ⟨x, hx, he⟩
    · exact absurd hd' (hn d')
    · exact .inr ⟨x, u, List.mem_of_find?_eq_some hx, hi, hu, he⟩
  | updateAll f u hi hu =>
    obtain ⟨d', hd', hf⟩ := hc
    rcases Entries.mem_updateAll.mp hd with ⟨hm, hn⟩ | ⟨x, hx, -, he⟩
    · rw [Entries.eq_of_mem hk.nodup hm hd', hf] at hn
      cases hn
    · exact .inr ⟨x, u, hx, hi, hu, he⟩
  | deleteFirst f =>
    obtain ⟨d', hd'⟩ := hc
    exact absurd hd' (((Entries.mem_deleteFirst hk.nodup).mp hd).2 d')
  | deleteAll f =>
    obtain ⟨d', hd', hf⟩ := hc
    obtain ⟨hm, hn⟩ := Entries.mem_deleteAll.mp hd
    rw [Entries.eq_of_mem hk.nodup hm hd', hf] at hn
    cases hn

end Writes

end Collection

/-! ### Versions -/

/-- **Keyed entries with versions**: every document tells one that is not negative. -/
structure Versioned (field : String) (es : Entries) : Prop extends es.Keyed where
  version : ∀ e ∈ es, ∃ v : Int64, Document.value? e.2 field = some (.int64 v) ∧ 0 ≤ v.toInt

/-- Versions that doubles tell apart. -/
def SmallVersions (field : String) (es : Entries) : Prop :=
  ∀ e ∈ es, ∀ v : Int64, Document.value? e.2 field = some (.int64 v) → v.toInt < 2 ^ 53

/-- Whether the version of a document is small. -/
def hasSmallVersion (field : String) (d : Document) : Bool :=
  match d.value? field with
  | some (.int64 v) => v.toInt < 2 ^ 53
  | _ => true

instance (field : String) (es : Entries) : Decidable (SmallVersions field es) :=
  decidable_of_iff (∀ e ∈ es, hasSmallVersion field e.2 = true) <| by
    refine forall₂_congr fun e _ => ?_
    rw [hasSmallVersion]
    constructor
    · intro h v hv
      rw [hv] at h
      exact of_decide_eq_true h
    · intro h
      split
      · rename_i v hv
        exact decide_eq_true (h v hv)
      · rfl

theorem counter_eq {d : Document} {field : String} {v : Int64} (hd : '.' ∉ field.toList)
    (hv : d.value? field = some (.int64 v)) (h0 : 0 ≤ v.toInt) (hb : v.toInt < 2 ^ 53) :
    d.counter field = v := by
  have hb' : v.toInt.natAbs < Double.wholeBound := by rw [Double.wholeBound]; omega
  rw [Document.counter, Document.readPath?_of_dotless d hd, hv]
  simp only [Option.bind_some, Value.number?, Option.map_some, Option.getD_some]
  rw [Double.toInt64_ofInt hb', Int64.ofInt_toInt]

theorem Value.int64_equalTo (v v' : Int64) :
    (Value.int64 v).equalTo (.int64 v') =
      (Double.ofInt v.toInt).same (Double.ofInt v'.toInt) := by
  simp [equalTo, scalarEqualTo, number?]

theorem toInt_succ {v : Int64} (h0 : 0 ≤ v.toInt) (hb : v.toInt < 2 ^ 53) :
    (v + 1).toInt = v.toInt + 1 := by
  rw [Int64.toInt_add, Int64.toInt_one, Int.bmod_eq_of_le (by omega) (by omega)]

namespace Collection

variable {E : Type} {c : Collection E} {field : String} {es es' : Entries}
  {concerned : Uuid → Prop}

/-- **An update counts as one more write.** -/
theorem value?_withVersion (hs : c.schema.Lawful) (hf : c.schema.versionName? = some field)
    {u : Update} (hi : u.incs = []) (hu : c.schema.PermitsAll u.sets) {d : Document} {v : Int64}
    (hv : d.value? field = some (.int64 v)) (h0 : 0 ≤ v.toInt) (hb : v.toInt < 2 ^ 53) :
    ((c.withVersion u).apply d).value? field = some (.int64 (v + 1)) := by
  obtain ⟨f, hm, -, hn⟩ := Schema.versionName?_eq_some hf
  have hd : '.' ∉ field.toList := hn ▸ hs.dotless f hm
  rw [withVersion, hf]
  dsimp only
  rw [Update.value?_apply_inc hd (Schema.spares_version hs hu hi hf), counter_eq hd hv h0 hb]

namespace Writes

/-- **A document that is concerned and stays** has the next version. -/
theorem next_version (h : c.Writes es es' concerned) (hs : c.schema.Lawful)
    (hf : c.schema.versionName? = some field) (hes : Versioned field es)
    (hb : SmallVersions field es) {id : Uuid} (hc : concerned id) {d d' : Document} {v : Int64}
    (hd : (id, d) ∈ es) (hv : d.value? field = some (.int64 v)) (hd' : (id, d') ∈ es') :
    d'.value? field = some (.int64 (v + 1)) := by
  rcases h.cases_of_concerned hes.toKeyed hc hd' with ⟨hn, -⟩ | ⟨x, u, hx, hi, hu, rfl⟩
  · exact absurd (List.mem_map.mpr ⟨_, hd, rfl⟩) hn
  · obtain rfl := Entries.eq_of_mem hes.nodup hx hd
    obtain ⟨v', hv', h0⟩ := hes.version _ hd
    obtain rfl : v' = v := by
      rw [hv] at hv'
      cases hv'
      rfl
    exact c.value?_withVersion hs hf hi hu hv h0 (hb _ hd _ hv)

theorem versioned (h : c.Writes es es' concerned) (hs : c.schema.Lawful)
    (hf : c.schema.versionName? = some field) (hes : Versioned field es)
    (hb : SmallVersions field es) : Versioned field es' where
  toKeyed := h.keyed hs hes.toKeyed
  version := by
    rintro ⟨id, d⟩ hd
    by_cases hc : concerned id
    · rcases h.cases_of_concerned hes.toKeyed hc hd with ⟨-, hz⟩ | ⟨x, u, hx, hi, hu, rfl⟩
      · exact ⟨0, hz field hf, by decide⟩
      · obtain ⟨v, hv, h0⟩ := hes.version _ hx
        have hbv := hb _ hx v hv
        refine ⟨v + 1, c.value?_withVersion hs hf hi hu hv h0 hbv, ?_⟩
        rw [toInt_succ h0 hbv]
        omega
    · exact hes.version _ ((h.mem_iff_of_not_concerned hes.toKeyed hc d).mp hd)

end Writes

end Collection

end Registrar
