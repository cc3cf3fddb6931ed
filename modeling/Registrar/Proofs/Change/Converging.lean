import Registrar.Directory.Contact
import Registrar.Proofs.Change.Paths
import Registrar.Proofs.Value.Equivalence

/-!
# Differences converge, but for NaN

The difference of two versions names the fields that do not agree, as they are proposed. When its
fields are set, each field agrees with what is proposed already, or holds exactly this. So a second
difference is empty just if what is proposed agrees with itself; and this it does if no NaN is in
it. This is so for every schema, also for one that repeats a field.

* `diff_eq_nil_iff`: when a difference is empty.
* `valueOrNull_putAll_diff`: a field after a difference was set.
* `apply_diff`: setting a difference is the update that a store makes.
* `converges_iff_nanFree`: agreement is an equivalence, and differences converge, but for NaN.
-/

namespace Registrar

open Document

namespace Document

variable {d : Document} {key : String} {fields : List (String × Value)}

/-- **The last value written counts**, and each key is written once. -/
theorem value?_putAll (h : (keys fields).Nodup) :
    (putAll d fields).value? key = (value? fields key).or (d.value? key) := by
  induction fields generalizing d with
  | nil => rfl
  | cons f r ih =>
    rw [keys_cons, List.nodup_cons] at h
    by_cases hkey : f.1 = key
    · subst hkey
      rw [putAll_cons, value?_putAll_of_notMem h.1, value?_put_self, value?, if_pos rfl,
        Option.some_or]
    · rw [putAll_cons, ih h.2, value?_put_of_ne _ _ (Ne.symm hkey), value?, if_neg hkey]

theorem setAll_of_dotless (h : ∀ f ∈ fields, '.' ∉ f.1.toList) :
    setAll fields d = putAll d fields := by
  induction fields generalizing d with
  | nil => rfl
  | cons f r ih =>
    rw [List.forall_mem_cons] at h
    rw [setAll_cons, putAll_cons, writePath_of_dotless _ _ h.1, ih h.2]

end Document

namespace Schema

variable {s : Schema} {dependencies : Bool} {existing proposed : Document} {f : Field}

/-- The fields that a difference names. -/
def changedFields (s : Schema) (dependencies : Bool) (existing proposed : Document) : List Field :=
  (s.diffedFields dependencies).filter fun f => !agreesIn existing proposed f

/-- **A difference** writes the fields that do not agree, one after the other. -/
theorem diff_eq_foldl (s : Schema) (dependencies : Bool) (existing proposed : Document) :
    s.diff dependencies existing proposed = (s.changedFields dependencies existing proposed).foldl
      (fun changes f => put changes f.name (proposed.valueOrNull f.name)) [] := by
  rw [diff, changedFields, List.foldl_filter]
  congr 1
  funext changes f
  by_cases hagrees : (existing.valueOrNull f.name).agrees (proposed.valueOrNull f.name) = true
  · simp [agreesIn, hagrees]
  · simp [agreesIn, hagrees]

theorem mem_keys_diff {key : String} : key ∈ (s.diff dependencies existing proposed).keys ↔
    ∃ f ∈ s.changedFields dependencies existing proposed, key = f.name := by
  rw [diff_eq_foldl, mem_keys_putFields]
  simp [keys]

theorem nodup_keys_diff (s : Schema) (dependencies : Bool) (existing proposed : Document) :
    (s.diff dependencies existing proposed).keys.Nodup := by
  rw [diff_eq_foldl]
  exact List.foldlRecOn (motive := fun changes : Changes => changes.keys.Nodup) _ _ List.nodup_nil
    fun changes h f _ => Document.nodup_keys_put h f.name _

/-- **A difference is empty** just if all fields that take part agree. -/
theorem diff_eq_nil_iff : s.diff dependencies existing proposed = [] ↔
    ∀ f ∈ s.diffedFields dependencies, agreesIn existing proposed f = true := by
  rw [← List.map_eq_nil_iff (f := Prod.fst), List.eq_nil_iff_forall_not_mem]
  constructor
  · intro h f hf
    by_contra hagrees
    refine h f.name (mem_keys_diff.mpr ⟨f, List.mem_filter.mpr ⟨hf, ?_⟩, rfl⟩)
    rw [Bool.eq_false_of_not_eq_true hagrees]
    rfl
  · intro h key hkey
    obtain ⟨f, hf, -⟩ := mem_keys_diff.mp hkey
    obtain ⟨hmem, hagrees⟩ := List.mem_filter.mp hf
    rw [h f hmem] at hagrees
    cases hagrees

theorem value?_putFields {fs : List Field} {changes : Changes} {key : String} :
    value? (fs.foldl (fun changes f => put changes f.name (proposed.valueOrNull f.name)) changes)
      key = if ∃ f ∈ fs, key = f.name then some (proposed.valueOrNull key)
        else changes.value? key := by
  induction fs generalizing changes with
  | nil => simp
  | cons f fs ih =>
    rw [List.foldl_cons, ih]
    by_cases hlater : ∃ g ∈ fs, key = g.name
    · have hsome : ∃ g ∈ f :: fs, key = g.name := by
        obtain ⟨g, hg, hkey⟩ := hlater
        exact ⟨g, List.mem_cons_of_mem f hg, hkey⟩
      rw [if_pos hlater, if_pos hsome]
    · rw [if_neg hlater]
      by_cases hkey : key = f.name
      · subst hkey
        rw [if_pos ⟨f, List.mem_cons_self, rfl⟩, value?_put_self]
      · rw [value?_put_of_ne _ _ hkey, if_neg]
        simpa [hkey] using hlater

/-- **A field after a difference was set** agrees with what is proposed already, or holds this. -/
theorem valueOrNull_putAll_diff (hf : f ∈ s.diffedFields dependencies) :
    (existing.putAll (s.diff dependencies existing proposed)).valueOrNull f.name =
      if agreesIn existing proposed f then existing.valueOrNull f.name
      else proposed.valueOrNull f.name := by
  have hchanged : (∃ g ∈ s.changedFields dependencies existing proposed, f.name = g.name) ↔
      ¬ agreesIn existing proposed f = true := by
    constructor
    · rintro ⟨g, hg, hname⟩
      have hagrees := (List.mem_filter.mp hg).2
      simpa [agreesIn, hname] using hagrees
    · intro hagrees
      exact ⟨f, List.mem_filter.mpr ⟨hf, by simpa using hagrees⟩, rfl⟩
  rw [valueOrNull, value?_putAll (nodup_keys_diff ..), diff_eq_foldl, value?_putFields]
  by_cases hagrees : agreesIn existing proposed f = true
  · rw [if_neg (fun h => hchanged.mp h hagrees), if_pos hagrees]
    rfl
  · rw [if_pos (hchanged.mpr hagrees), if_neg hagrees]
    rfl

/-- **Setting a difference** is the update that a store makes of it. -/
theorem apply_diff (hdotless : ∀ f ∈ s.fields, '.' ∉ f.name.toList) :
    Update.apply { sets := s.diff dependencies existing proposed } existing =
      existing.putAll (s.diff dependencies existing proposed) := by
  rw [Update.apply_eq]
  refine setAll_of_dotless fun p hp => ?_
  obtain ⟨f, hf, hname⟩ := mem_keys_diff.mp (List.mem_map_of_mem hp)
  rw [hname]
  exact hdotless f (List.mem_filter.mp (List.mem_filter.mp hf).1).1

/-! ### Convergence -/

/-- **No NaN is in the fields** that take part in a difference. -/
def NaNFree (s : Schema) (dependencies : Bool) (d : Document) : Prop :=
  ∀ f ∈ s.diffedFields dependencies, (d.valueOrNull f.name).nanFree = true

theorem agreesIn_self_iff {d : Document} (hd : (Value.document d).KeysDistinct) :
    agreesIn d d f = true ↔ (d.valueOrNull f.name).nanFree = true := by
  rw [Value.KeysDistinct, Value.fieldsDistinct_iff] at hd
  exact Value.agrees_self_iff
    (Value.valueOrNull_induction (P := Value.KeysDistinct) trivial hd.2 f.name)

/-- **A document does not differ from itself** just if it is free of NaN. -/
theorem diff_self_iff {d : Document} (hd : (Value.document d).KeysDistinct) :
    s.diff dependencies d d = [] ↔ s.NaNFree dependencies d := by
  rw [diff_eq_nil_iff]
  exact forall₂_congr fun f _ => agreesIn_self_iff hd

theorem agreesIn_putAll_diff (hf : f ∈ s.diffedFields dependencies) :
    agreesIn (existing.putAll (s.diff dependencies existing proposed)) proposed f =
      agreesIn proposed proposed f := by
  rw [agreesIn, valueOrNull_putAll_diff hf]
  split
  · rename_i hagrees
    have hself : agreesIn proposed proposed f = true :=
      Value.agrees_trans (Value.agrees_symm hagrees) hagrees
    rw [hself]
    exact hagrees
  · rfl

/-- **Differences converge** just if what is proposed is free of NaN. -/
theorem diff_putAll_diff_iff (hp : (Value.document proposed).KeysDistinct) :
    s.diff dependencies (existing.putAll (s.diff dependencies existing proposed)) proposed = [] ↔
      s.NaNFree dependencies proposed := by
  rw [diff_eq_nil_iff, ← diff_self_iff hp, diff_eq_nil_iff]
  exact forall₂_congr fun f hf => by rw [agreesIn_putAll_diff hf]

/-- **Agreement is an equivalence, and differences converge, but for NaN.** Agreement is symmetric
and transitive, and reflexive on the values without a NaN. For every schema and all documents, a
document does not differ from itself just if it is free of NaN in the fields that take part; and a
second difference is empty just if what is proposed is free of it. -/
theorem converges_iff_nanFree (s : Schema) (dependencies : Bool) {existing proposed : Document}
    (he : (Value.document existing).KeysDistinct) (hp : (Value.document proposed).KeysDistinct) :
    (∀ a b : Value, a.agrees b = true → b.agrees a = true) ∧
    (∀ a b c : Value, a.agrees b = true → b.agrees c = true → a.agrees c = true) ∧
    (∀ v : Value, v.KeysDistinct → (v.agrees v = true ↔ v.nanFree = true)) ∧
    (s.diff dependencies existing existing = [] ↔ s.NaNFree dependencies existing) ∧
    (s.diff dependencies (existing.putAll (s.diff dependencies existing proposed)) proposed = [] ↔
      s.NaNFree dependencies proposed) := by
  refine ⟨fun _ _ => Value.agrees_symm, fun _ _ _ => Value.agrees_trans,
    fun _ => Value.agrees_self_iff, ?_, ?_⟩
  · exact diff_self_iff he
  · exact diff_putAll_diff_iff hp

end Schema

namespace Directory

/-- A contact whose attributes hold a NaN. -/
def unscored : Document := [("attributes", .document [("score", .double .nan)])]

/-- **A NaN differs from itself**: the contact differs from itself, and setting the difference does
not help. -/
theorem unscored_differs :
    Contact.kind.schema.diff false unscored unscored ≠ [] ∧
      Contact.kind.schema.diff false
        (unscored.putAll (Contact.kind.schema.diff false unscored unscored)) unscored ≠ [] := by
  have hdistinct : (Value.document unscored).KeysDistinct := by
    simp [Value.KeysDistinct, Value.FieldsDistinct, unscored, keys]
  have hnan : ¬ Contact.kind.schema.NaNFree false unscored := by
    intro hfree
    have hattributes : Field.data "attributes" .map [] ∈
        Contact.kind.schema.diffedFields false := by
      refine List.mem_filter.mpr ⟨?_, rfl⟩
      simp [Contact.kind, Contact.schema]
    exact absurd (hfree _ hattributes) (by decide +kernel)
  obtain ⟨-, -, -, hself, hagain⟩ :=
    Schema.converges_iff_nanFree Contact.kind.schema false hdistinct hdistinct
  exact ⟨fun h => hnan (hself.mp h), fun h => hnan (hagain.mp h)⟩

end Directory

end Registrar
