import Registrar.Proofs.Change.Paths
import Registrar.Proofs.Directory.Kinds
import Registrar.Schema.Path

/-!
# Changes of what is declared

A change is **declared** if its path is the canonical spelling of something in the schema, in a
field that the engine does not write by itself. Plans are made from names of all kinds, and names
that are not known should not matter. Those whose first segment is unknown do not. But a name may
lead below a known field, to nothing that is declared there or to nothing at all. Such a name
**strays**: it has the part written under the name as it is spelled, or the whole field where parts
cannot be written by themselves. So a plan keeps to what is declared just if every name that strays
comes too late to have anything written, or has nothing written but what known names ask for.

* `Schema.Declared`: canonical paths of fields that may be changed.
* `Schema.knows`, `Schema.Strays`: the names that are known, and those that stray.
* `declared_part_iff`: which parts of fields are declared.
* `declared_plan_iff`: when a plan keeps to what is declared.
-/

namespace Registrar

/-- **A part of the object in a field is admitted**: it has a name, and this is declared unless no
parts are. -/
def Field.admits (g : Field) (leaf : String) : Bool :=
  !leaf.isEmpty && (g.children.isEmpty || (g.child? leaf).isSome)

namespace Schema

variable {s : Schema} {patch : Document} {existing : Option Document} {st : PlanState}
  {g f : Field} {name leaf key root : String} {names before properties paths : List String}

/-- **A path is declared**: it is its own canonical spelling, and the caller may change the
field. -/
def Declared (s : Schema) (path : String) : Prop :=
  ∃ c, s.resolve? path = some c ∧ c.path = path ∧ c.root.isInternal = false

/-- **A name is known**: it leads into a field that the caller may change, and if it leads below one
that is no list and no map, then to a part that is admitted. -/
def knows (s : Schema) (name : String) : Bool :=
  (s.reached? name).any fun g => g.kind.isCollection || (leafIn? g name).all g.admits

/-- **A name strays below the field**: it leads into it and is not known. -/
def Strays (s : Schema) (name : String) (g : Field) : Prop :=
  s.reached? name = some g ∧ s.knows name = false

/-! ### Paths that are declared -/

/-- **A field that is reached** is declared. -/
theorem declared_name (h : s.reached? name = some g) : s.Declared g.name := by
  obtain ⟨hfound, hdotless, hinternal⟩ := field?_of_reached? h
  refine ⟨⟨g.name, g, g.kind⟩, ?_, rfl, hinternal⟩
  rw [resolve?, Text.segments_of_dotless hdotless]
  simp only [hfound, Option.bind_eq_bind, Option.bind_some, List.foldlM_nil]
  rfl

theorem child?_leafIn? (hleaf : leafIn? g name = some leaf) {c : Field}
    (hc : g.child? leaf = some c) : c.name = leaf := by
  obtain ⟨cut, -, rfl⟩ := Option.map_eq_some_iff.mp hleaf
  cases hsegment : g.child? (Text.headSegment cut.2) with
  | none =>
    have hspelled : leafName g (Text.headSegment cut.2) = Text.headSegment cut.2 := by
      rw [leafName, hsegment, Option.map_none, Option.getD_none]
    rw [hspelled, hsegment] at hc
    cases hc
  | some c' =>
    have hspelled : leafName g (Text.headSegment cut.2) = c'.name := by
      rw [leafName, hsegment, Option.map_some, Option.getD_some]
    rw [hspelled] at hc ⊢
    rw [Field.child?, fieldAmong?_self hsegment] at hc
    rw [Option.some.inj hc]

/-- **A part of a field** is declared just if it is admitted. -/
theorem declared_part_iff (h : s.reached? name = some g) (hleaf : leafIn? g name = some leaf) :
    s.Declared (g.name ++ "." ++ leaf) ↔ g.admits leaf = true := by
  obtain ⟨hfound, hdotless, hinternal⟩ := field?_of_reached? h
  have hresolve : s.resolve? (g.name ++ "." ++ leaf) =
      (PathWalk.step? ⟨g, g.kind, []⟩ leaf).map fun walk =>
        ⟨".".intercalate (g.name :: walk.passed), g, walk.kind⟩ := by
    rw [resolve?, Text.segments_append_dot hdotless (dotless_leaf hleaf)]
    simp only [hfound, Option.bind_eq_bind, Option.bind_some, List.foldlM_cons, List.foldlM_nil]
    cases PathWalk.step? ⟨g, g.kind, []⟩ leaf <;> rfl
  rw [Declared, hresolve, PathWalk.step?, Field.admits]
  by_cases hempty : leaf.isEmpty = true
  · simp [hempty]
  · rw [if_neg hempty]
    cases hc : g.child? leaf with
    | some c =>
      refine iff_of_true ⟨_, rfl, ?_, hinternal⟩ (by simp [hempty])
      rw [child?_leafIn? hleaf hc]
      rfl
    | none =>
      by_cases hnone : g.children.isEmpty = true
      · refine iff_of_true ⟨_, by rw [if_pos hnone]; rfl, rfl, hinternal⟩ (by simp [hempty, hnone])
      · refine iff_of_false ?_ (by simp [hnone])
        rw [if_neg hnone]
        rintro ⟨c, hc, -⟩
        cases hc

/-! ### Names that stray -/

/-- **A name that strays below the field has nothing written of its own**: where parts can be
written by themselves, a name before it asks for the whole field, and elsewhere the known names have
the field written, too, and what is computed from it. -/
structure Idle (s : Schema) (patch : Document) (existing : Option Document)
    (known before : List String) (g : Field) : Prop where
  late : HoldsParts existing g → s.NamesWhole existing before g
  shared : ¬ HoldsParts existing g → ∀ f, f = g ∨ f ∈ s.computedFrom g.name →
    f.name ∈ (s.changesFor known patch existing).keys

theorem knows_iff (h : s.reached? name = some g) : s.knows name = true ↔
    g.kind.isCollection = true ∨ ∀ leaf, leafIn? g name = some leaf → g.admits leaf = true := by
  rw [knows, h, Option.any_some, Bool.or_eq_true, Option.all_eq_true]

theorem knows_of_undotted (h : s.reached? name = some g) (hleaf : leafIn? g name = none) :
    s.knows name = true :=
  (knows_iff h).mpr (.inr fun leaf hsome => by rw [hleaf] at hsome; cases hsome)

/-- **Where parts can be written by themselves**, only known names ask for the whole field. -/
theorem namesWhole_filter_iff (hparts : HoldsParts existing g) :
    s.NamesWhole existing (names.filter s.knows) g ↔ s.NamesWhole existing names g := by
  constructor
  · rintro ⟨name, hname, hrest⟩
    exact ⟨name, (List.mem_filter.mp hname).1, hrest⟩
  · rintro ⟨name, hname, hreach, hundivided⟩
    have hknown := knows_of_undotted hreach (hundivided.resolve_right fun hnot => hnot hparts)
    exact ⟨name, List.mem_filter.mpr ⟨hname, hknown⟩, hreach, hundivided⟩

theorem namesInTime_of_filter (h : s.NamesInTime existing (names.filter s.knows) g leaf) :
    s.NamesInTime existing names g leaf := by
  induction names using List.reverseRecOn with
  | nil => exact h
  | append_singleton names name ih =>
    rw [namesInTime_append_iff]
    rw [List.filter_append, List.filter_singleton] at h
    cases hknown : s.knows name with
    | false =>
      rw [hknown, cond_false, List.append_nil] at h
      exact .inl (ih h)
    | true =>
      rw [hknown, cond_true] at h
      rcases namesInTime_append_iff.mp h with hold | ⟨hreach, hleaf, hparts, hnew⟩
      · exact .inl (ih hold)
      · exact .inr ⟨hreach, hleaf, hparts, mt (namesWhole_filter_iff hparts).mpr hnew⟩

/-- **The known names** ask for nothing that all names do not ask for. -/
theorem mem_keys_of_known (h : key ∈ (s.changesFor (names.filter s.knows) patch existing).keys) :
    key ∈ (s.changesFor names patch existing).keys := by
  rw [mem_keys_changesFor] at h ⊢
  rcases h with ⟨g, hkey, name, hname, hrest⟩ | ⟨g, leaf, hkey, hleaf⟩ |
    ⟨f, hf, ⟨source, ⟨name, hname, hreach⟩, hrole⟩, hkey⟩
  · exact .inl ⟨g, hkey, name, (List.mem_filter.mp hname).1, hrest⟩
  · exact .inr (.inl ⟨g, leaf, hkey, namesInTime_of_filter hleaf⟩)
  · exact .inr (.inr ⟨f, hf, ⟨source, ⟨name, (List.mem_filter.mp hname).1, hreach⟩, hrole⟩, hkey⟩)

theorem Strays.part (h : s.Strays name g) :
    ∃ leaf, leafIn? g name = some leaf ∧ g.admits leaf = false := by
  have hunknown := mt (knows_iff h.1).mpr (by simp [h.2])
  push Not at hunknown
  obtain ⟨-, leaf, hleaf, hadmits⟩ := hunknown
  exact ⟨leaf, hleaf, Bool.eq_false_iff.mpr hadmits⟩

section

variable (hidle : ∀ before name g, before ++ [name] <+: names → s.Strays name g →
  s.Idle patch existing (names.filter s.knows) before g)

include hidle

/-- A name that leads into a field is known, or it has nothing written of its own. -/
theorem knows_or_idle (hname : name ∈ names) (hreach : s.reached? name = some g) :
    name ∈ names.filter s.knows ∨ ∃ before, before ⊆ names ∧
      s.Idle patch existing (names.filter s.knows) before g := by
  cases hknown : s.knows name with
  | true => exact .inl (List.mem_filter.mpr ⟨hname, hknown⟩)
  | false =>
    obtain ⟨before, after, rfl⟩ := List.append_of_mem hname
    have hprefix : before ++ [name] <+: before ++ name :: after :=
      ⟨after, (List.append_cons _ _ _).symm⟩
    exact .inr ⟨before, List.subset_append_left _ _, hidle before name g hprefix ⟨hreach, hknown⟩⟩

/-- **Fields that are asked for as a whole** are asked for by known names. -/
theorem mem_known_of_whole (h : s.NamesWhole existing names g) :
    g.name ∈ (s.changesFor (names.filter s.knows) patch existing).keys := by
  obtain ⟨name, hname, hreach, hundivided⟩ := h
  by_cases hparts : HoldsParts existing g
  · refine mem_keys_changesFor.mpr (.inl ⟨g, rfl, (namesWhole_filter_iff hparts).mpr ?_⟩)
    exact ⟨name, hname, hreach, hundivided⟩
  · rcases knows_or_idle hidle hname hreach with hknown | ⟨before, -, hshared⟩
    · exact mem_keys_changesFor.mpr (.inl ⟨g, rfl, name, hknown, hreach, hundivided⟩)
    · exact hshared.shared hparts g (.inl rfl)

/-- **Parts that are named in time** are admitted, and known names lead to them. -/
theorem known_of_namesInTime (h : s.NamesInTime existing names g leaf) :
    s.Declared (g.name ++ "." ++ leaf) ∧ s.NamesInTime existing (names.filter s.knows) g leaf := by
  obtain ⟨before, name, hprefix, hreach, hleaf, hparts, hnew⟩ := h
  have hknown : s.knows name = true := by
    by_contra hunknown
    exact hnew ((hidle before name g hprefix ⟨hreach, Bool.eq_false_iff.mpr hunknown⟩).late hparts)
  refine ⟨(declared_part_iff hreach hleaf).mpr ?_, before.filter s.knows, name, ?_, hreach, hleaf,
    hparts, mt (namesWhole_filter_iff hparts).mp hnew⟩
  · refine ((knows_iff hreach).mp hknown).elim (fun hcollection => ?_) fun hall => hall leaf hleaf
    rw [hparts.1] at hcollection
    cases hcollection
  · have hfiltered := hprefix.filter s.knows
    rwa [List.filter_append, List.filter_singleton, hknown, cond_true] at hfiltered

/-- **Fields that are computed** from named ones are computed from those that known names name. -/
theorem mem_known_of_follows (hf : f ∈ s.fields) (h : s.Follows names f) :
    f.name ∈ (s.changesFor (names.filter s.knows) patch existing).keys := by
  obtain ⟨source, ⟨name, hname, hreach⟩, hrole⟩ := h
  have hnamed : s.Names (names.filter s.knows) source →
      f.name ∈ (s.changesFor (names.filter s.knows) patch existing).keys := fun hsource =>
    mem_keys_changesFor.mpr (.inr (.inr ⟨f, hf, ⟨source, hsource, hrole⟩, rfl⟩))
  rcases knows_or_idle hidle hname hreach with hknown | ⟨before, hbefore, hshared⟩
  · exact hnamed ⟨name, hknown, hreach⟩
  · by_cases hparts : HoldsParts existing source
    · obtain ⟨name', hname', hrest⟩ := hshared.late hparts
      exact hnamed ((namesWhole_filter_iff hparts).mpr ⟨name', hbefore hname', hrest⟩).named
    · exact hshared.shared hparts f (.inr (List.mem_filter.mpr ⟨hf, decide_eq_true hrole⟩))

end

/-- **Where all changes are declared**, and made for known names, too, a name that strays has
nothing written of its own: the part to which it leads is not declared. -/
theorem idle_of_declared
    (hdeclared : ∀ key ∈ (s.changesFor names patch existing).keys, s.Declared key)
    (hknown : ∀ key ∈ (s.changesFor names patch existing).keys,
      key ∈ (s.changesFor (names.filter s.knows) patch existing).keys)
    (hnext : before ++ [name] <+: names) (hstrays : s.Strays name g) :
    s.Idle patch existing (names.filter s.knows) before g where
  late hparts := by
    by_contra hnew
    obtain ⟨leaf, hleaf, hadmits⟩ := hstrays.part
    have hkey := hdeclared _ (mem_keys_changesFor.mpr
      (.inr (.inl ⟨g, leaf, rfl, before, name, hnext, hstrays.1, hleaf, hparts, hnew⟩)))
    rw [declared_part_iff hstrays.1 hleaf, hadmits] at hkey
    cases hkey
  shared hparts f hf := by
    have hname : name ∈ names :=
      hnext.subset (List.mem_append_right _ (List.mem_singleton_self _))
    refine hknown _ (mem_keys_changesFor.mpr ?_)
    rcases hf with rfl | hf
    · exact .inl ⟨f, rfl, name, hname, hstrays.1, .inr hparts⟩
    · obtain ⟨hmem, hrole⟩ := List.mem_filter.mp hf
      exact .inr (.inr ⟨f, hmem, ⟨g, ⟨name, hname, hstrays.1⟩, of_decide_eq_true hrole⟩, rfl⟩)

/-- **A plan keeps to what is declared**, and makes the changes that it would make for the known
names, just if what is computed from a named field is declared, and every name that strays has
nothing written of its own. -/
theorem declared_plan_iff (s : Schema) (properties paths : List String) (patch : Document)
    (existing : Option Document) :
    ((∀ key ∈ (s.plan properties paths patch existing).keys, s.Declared key) ∧
      ∀ key, key ∈ (s.plan properties paths patch existing).keys ↔ key ∈ (s.changesFor
        ((s.plannedNames properties paths).filter s.knows) patch existing).keys) ↔
    (∀ f ∈ s.fields, s.Follows (s.plannedNames properties paths) f → s.Declared f.name) ∧
      ∀ before name g, before ++ [name] <+: s.plannedNames properties paths → s.Strays name g →
        s.Idle patch existing ((s.plannedNames properties paths).filter s.knows) before g := by
  have hplan : s.plan properties paths patch existing =
      s.changesFor (s.plannedNames properties paths) patch existing := rfl
  rw [hplan]
  generalize s.plannedNames properties paths = names
  constructor
  · rintro ⟨hdeclared, hsame⟩
    refine ⟨fun f hf hfollows => hdeclared _ (mem_keys_changesFor.mpr
      (.inr (.inr ⟨f, hf, hfollows, rfl⟩))), fun before name g hprefix hstrays => ?_⟩
    exact idle_of_declared hdeclared (fun key => (hsame key).mp) hprefix hstrays
  · rintro ⟨hderived, hidle⟩
    have hcases : ∀ key ∈ (s.changesFor names patch existing).keys, s.Declared key ∧
        key ∈ (s.changesFor (names.filter s.knows) patch existing).keys := by
      intro key hkey
      rcases mem_keys_changesFor.mp hkey with ⟨g, rfl, hwhole⟩ | ⟨g, leaf, rfl, hleaf⟩ |
        ⟨f, hf, hfollows, rfl⟩
      · obtain ⟨_, -, hreach⟩ := hwhole.named
        exact ⟨declared_name hreach, mem_known_of_whole hidle hwhole⟩
      · obtain ⟨hdeclared, hknown⟩ := known_of_namesInTime hidle hleaf
        exact ⟨hdeclared, mem_keys_changesFor.mpr (.inr (.inl ⟨g, leaf, rfl, hknown⟩))⟩
      · exact ⟨hderived f hf hfollows, mem_known_of_follows hidle hf hfollows⟩
    exact ⟨fun key hkey => (hcases key hkey).1,
      fun key => ⟨fun hkey => (hcases key hkey).2, mem_keys_of_known⟩⟩

end Schema

namespace Directory

/-- Settings of a category, with a priority only. -/
def prioritized : Document := [("settings", .document [("priority", .int32 3)])]

/-- **A part of the settings that is not declared is written**: the name strays, and has something
written of its own. -/
theorem bogus_written :
    (Category.kind.schema.plan [] ["settings.bogus"] prioritized none).keys = ["settings.bogus"] ∧
      Category.kind.schema.resolve? "settings.bogus" = none ∧
      ∃ before name g, before ++ [name] <+: ["settings.bogus"] ∧
        Category.kind.schema.Strays name g ∧
        ¬ Category.kind.schema.Idle prioritized none [] before g := by
  have hkeys : (Category.kind.schema.plan [] ["settings.bogus"] prioritized none).keys =
      ["settings.bogus"] := by decide +kernel
  have hnone : Category.kind.schema.resolve? "settings.bogus" = none := rfl
  refine ⟨hkeys, hnone, ?_⟩
  by_contra hidle
  push Not at hidle
  have hroles : ∀ f ∈ Category.kind.schema.fields,
      f.role ∈ [.id, .data, .dependency, .navigation, .updatedAt, .updatedBy, .version] := by decide
  have hderived : ∀ f ∈ Category.kind.schema.fields,
      Category.kind.schema.Follows ["settings.bogus"] f → Category.kind.schema.Declared f.name := by
    rintro f hf ⟨source, -, hrole⟩
    exact absurd (hrole ▸ hroles f hf) (by simp)
  have hdeclared := ((Schema.declared_plan_iff Category.kind.schema [] ["settings.bogus"]
    prioritized none).mpr ⟨hderived, hidle⟩).1
  obtain ⟨c, hc, -⟩ := hdeclared "settings.bogus" (hkeys ▸ List.mem_singleton_self _)
  rw [hnone] at hc
  cases hc

end Directory

end Registrar
