import Registrar.Change.Partial
import Registrar.Proofs.Store.Writing
import Mathlib.Data.List.Nodup

/-!
# Which fields are written

The caller names what to write as he likes; what is planned for him are paths into declared
fields. The id and the version are never among these fields, and so an update made of planned
changes leaves them alone.

* `Schema.Lawful`: what a schema has to keep so that names tell fields apart.
* `Schema.Permits`: a path leads into a field that may be written.
* `permits_plan`, `permits_diff`: planned changes, and differences, are permitted.
* `spares_id`, `spares_version`: permitted updates leave the id and the version alone.
-/

namespace Registrar

/-- Fields that hold neither the id, nor the version, nor copies of other entities. -/
def Field.isWritten (f : Field) : Bool :=
  match f.role with
  | .id | .version | .navigation => false
  | .data | .dependency | .derived _ | .updatedAt | .updatedBy => true

namespace Schema

variable {s : Schema}

/-- **A lawful schema** declares each field once, under a name without dots. One of them is the id,
and every relation stores its ids in a field for them. -/
structure Lawful (s : Schema) : Prop where
  nodup : (s.fields.map Field.name).Nodup
  dotless : ∀ f ∈ s.fields, '.' ∉ f.name.toList
  id : Field.idField ∈ s.fields
  references : ∀ r ∈ s.relations, ∃ f ∈ s.fields, f.role = .dependency ∧ f.name = r.idField

instance (s : Schema) : Decidable s.Lawful :=
  decidable_of_iff ((s.fields.map Field.name).Nodup ∧ (∀ f ∈ s.fields, '.' ∉ f.name.toList) ∧
      (∃ f ∈ s.fields, f.name = "id" ∧ f.kind = .id ∧ f.role = .id ∧ f.children.isEmpty) ∧
      ∀ r ∈ s.relations, ∃ f ∈ s.fields, f.role = .dependency ∧ f.name = r.idField) <| by
    constructor
    · rintro ⟨hn, hd, ⟨⟨n, k, r, c⟩, hf, rfl, rfl, rfl, hc⟩, hr⟩
      obtain rfl : c = [] := List.isEmpty_iff.mp hc
      exact ⟨hn, hd, hf, hr⟩
    · rintro ⟨hn, hd, hi, hr⟩
      exact ⟨hn, hd, ⟨_, hi, rfl, rfl, rfl, rfl⟩, hr⟩

/-- **A path leads into a field that may be written.** -/
def Permits (s : Schema) (path : String) : Prop :=
  ∃ f ∈ s.fields, f.isWritten = true ∧ f.name = Text.headSegment path

/-- Every change leads into a field that may be written. -/
def PermitsAll (s : Schema) (changes : List (String × Value)) : Prop :=
  ∀ p ∈ changes, s.Permits p.1

namespace Lawful

theorem eq_of_name_eq (h : s.Lawful) {f g : Field} (hf : f ∈ s.fields) (hg : g ∈ s.fields)
    (hn : f.name = g.name) : f = g :=
  List.inj_on_of_nodup_map h.nodup hf hg hn

theorem name_ne (h : s.Lawful) {f g : Field} (hf : f ∈ s.fields) (hg : g ∈ s.fields)
    (hr : f.role ≠ g.role) : f.name ≠ g.name := by
  intro hn
  rw [h.eq_of_name_eq hf hg hn] at hr
  exact hr rfl

theorem name_ne_reference (h : s.Lawful) {f : Field} (hf : f ∈ s.fields)
    (hr : f.role ≠ .dependency) {r : Relation} (hm : r ∈ s.relations) : f.name ≠ r.idField := by
  obtain ⟨g, hg, hrole, hname⟩ := h.references r hm
  rw [← hname]
  exact h.name_ne hf hg (by rwa [hrole])

theorem permits_name (h : s.Lawful) {f : Field} (hf : f ∈ s.fields) (hw : f.isWritten = true) :
    s.Permits f.name :=
  ⟨f, hf, hw, (Text.headSegment_of_dotless (h.dotless f hf)).symm⟩

theorem permits_reference (h : s.Lawful) {r : Relation} (hr : r ∈ s.relations) :
    s.Permits r.idField := by
  obtain ⟨f, hf, hrole, hn⟩ := h.references r hr
  rw [← hn]
  exact h.permits_name hf (by rw [Field.isWritten, hrole])

theorem name_ne_of_permits (h : s.Lawful) {f : Field} (hf : f ∈ s.fields)
    (hw : f.isWritten = false) {path : String} (hp : s.Permits path) :
    f.name ≠ Text.headSegment path := by
  obtain ⟨g, hg, hgw, hn⟩ := hp
  intro he
  rw [h.eq_of_name_eq hf hg (he.trans hn.symm), hgw] at hw
  exact absurd hw (by decide)

end Lawful

/-! ### Planned changes -/

theorem mem_put {d : Document} {key : String} {value : Value} {p : String × Value}
    (h : p ∈ Document.put d key value) : p = (key, value) ∨ p ∈ d := by
  induction d with
  | nil => exact .inl (List.mem_singleton.mp h)
  | cons f r ih =>
    rw [Document.put] at h
    split at h
    · rename_i hk
      rcases List.mem_cons.mp h with rfl | h
      · exact .inl (by rw [hk])
      · exact .inr (List.mem_cons_of_mem f h)
    · rcases List.mem_cons.mp h with rfl | h
      · exact .inr List.mem_cons_self
      · exact (ih h).imp id (List.mem_cons_of_mem f)

theorem PermitsAll.put {changes : Changes} (h : s.PermitsAll changes) {path : String}
    (hp : s.Permits path) (v : Value) : s.PermitsAll (Document.put changes path v) := by
  intro p hm
  rcases mem_put hm with rfl | hm
  · exact hp
  · exact h p hm

theorem PermitsAll.nil : s.PermitsAll [] := by simp [PermitsAll]

theorem PermitsAll.append {a b : List (String × Value)} (ha : s.PermitsAll a)
    (hb : s.PermitsAll b) : s.PermitsAll (a ++ b) := by
  intro p hp
  rcases List.mem_append.mp hp with hp | hp
  · exact ha p hp
  · exact hb p hp

theorem writable?_isWritten {name : String} {f : Field} (h : s.writable? name = some f) :
    f ∈ s.fields ∧ f.isWritten = true := by
  obtain ⟨hf, hi⟩ := Option.filter_eq_some_iff.mp h
  refine ⟨List.mem_of_find?_eq_some hf, ?_⟩
  cases hr : f.role <;> simp_all [Field.isInternal, Field.isWritten]

theorem permits_replace (hs : s.Lawful) {st : PlanState} (h : s.PermitsAll st.changes) {f : Field}
    (hf : f ∈ s.fields) (hw : f.isWritten = true) (patch : Document) :
    s.PermitsAll (st.replace f.name patch).changes := by
  rw [PlanState.replace]
  split
  · exact h
  · exact h.put (hs.permits_name hf hw) _

theorem permits_setLeaf (hs : s.Lawful) {st : PlanState} (h : s.PermitsAll st.changes) {f : Field}
    (hf : f ∈ s.fields) (hw : f.isWritten = true) (leaf : String) (patch : Document) :
    s.PermitsAll (st.setLeaf f.name leaf patch).changes :=
  h.put ⟨f, hf, hw, (Text.headSegment_append_dot (hs.dotless f hf) leaf).symm⟩ _

theorem permits_planName (hs : s.Lawful) (patch : Document) (existing : Option Document)
    {st : PlanState} (h : s.PermitsAll st.changes) (name : String) :
    s.PermitsAll (s.planName patch existing st name).changes := by
  rw [planName]
  split
  split
  · exact h
  · rename_i f hf
    obtain ⟨hm, hw⟩ := writable?_isWritten hf
    split
    · exact permits_replace hs h hm hw patch
    · split
      · exact h
      · split
        · exact permits_setLeaf hs h hm hw _ patch
        · exact permits_replace hs h hm hw patch

theorem permits_withDerived (hs : s.Lawful) (patch : Document) {changes : Changes}
    (h : s.PermitsAll changes) : s.PermitsAll (s.withDerived patch changes) := by
  refine List.foldlRecOn (motive := s.PermitsAll) _ _ h fun changes h f hf => ?_
  obtain ⟨source, -, hf⟩ := List.mem_flatMap.mp hf
  obtain ⟨hm, hr⟩ := List.mem_filter.mp hf
  exact h.put (hs.permits_name hm (by rw [Field.isWritten, of_decide_eq_true hr])) _

/-- **Planned changes are permitted**, whatever the names. -/
theorem permits_plan (hs : s.Lawful) (properties paths : List String) (patch : Document)
    (existing : Option Document) : s.PermitsAll (s.plan properties paths patch existing) := by
  refine permits_withDerived hs patch ?_
  exact List.foldlRecOn (motive := fun st : PlanState => s.PermitsAll st.changes) _ _ PermitsAll.nil
    fun st h name _ => permits_planName hs patch existing h name

theorem permits_diff (hs : s.Lawful) (dependencies : Bool) (existing proposed : Document) :
    s.PermitsAll (s.diff dependencies existing proposed) := by
  refine List.foldlRecOn (motive := s.PermitsAll) _ _ PermitsAll.nil fun changes h f hf => ?_
  dsimp only
  split
  · exact h
  · obtain ⟨hm, hr⟩ := List.mem_filter.mp hf
    refine h.put (hs.permits_name hm ?_) _
    cases hrole : f.role <;> simp_all [Field.isWritten, FieldRole.isDiffed]

/-! ### What permitted updates leave alone -/

theorem spares_of_permits (hs : s.Lawful) {u : Update} (hu : s.PermitsAll u.sets)
    (hi : u.incs = []) {f : Field} (hf : f ∈ s.fields) (hw : f.isWritten = false) :
    u.Spares f.name :=
  ⟨fun p hp => hs.name_ne_of_permits hf hw (hu p hp), by simp [hi]⟩

theorem spares_id (hs : s.Lawful) {u : Update} (hu : s.PermitsAll u.sets) (hi : u.incs = []) :
    u.Spares "id" :=
  spares_of_permits hs hu hi hs.id rfl

theorem versionName?_eq_some {name : String} (h : s.versionName? = some name) :
    ∃ f ∈ s.fields, f.role = .version ∧ f.name = name := by
  obtain ⟨f, hf, hn⟩ := Option.map_eq_some_iff.mp h
  obtain ⟨hm, hr⟩ := List.mem_filter.mp (List.mem_of_mem_head? hf)
  exact ⟨f, hm, of_decide_eq_true hr, hn⟩

theorem versionName?_ne_id (hs : s.Lawful) {name : String} (h : s.versionName? = some name) :
    name ≠ "id" := by
  obtain ⟨f, hf, hr, rfl⟩ := versionName?_eq_some h
  exact hs.name_ne hf hs.id (by rw [hr]; exact FieldRole.noConfusion)

/-- **The version stays**, until it is counted up. -/
theorem spares_version (hs : s.Lawful) {u : Update} (hu : s.PermitsAll u.sets) (hi : u.incs = [])
    {name : String} (h : s.versionName? = some name) : u.Spares name := by
  obtain ⟨f, hf, hr, rfl⟩ := versionName?_eq_some h
  exact spares_of_permits hs hu hi hf (by rw [Field.isWritten, hr])

end Schema

end Registrar
