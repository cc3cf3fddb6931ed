import Registrar.Proofs.Change.Paths
import Registrar.Proofs.Directory.Kinds
import Mathlib.Data.List.Pairwise

/-!
# Changes that get in each other's way

Of two changes to one document, one may set a field and the other a part of the object in this
field. They are in **conflict**: what the document holds afterwards depends on their order, and a
store may refuse them. A plan keeps a list of the fields that it writes as a whole, and no part of
such a field is planned any more. But the list says nothing of the parts that were planned before
the field was, so the order of names decides: a plan is free of conflicts exactly if no field is
**torn**, first named by a part and then written as a whole.

* `ConflictFree`: no change names what another one names, or something above it.
* `Schema.Torn`: a field of which a part is named first, and then the whole.
* `mem_keys_plan_cases`: what is changed of a field.
* `conflictFree_plan_iff`: a plan is free of conflicts just if it tears no field.
-/

namespace Registrar

/-! ### Conflicts -/

/-- **A path names what another one names, or something above it**: the other one is the same, or
goes on with a dot. -/
def Text.Above (p q : String) : Prop := p = q ∨ (p ++ ".").toList <+: q.toList

instance (p q : String) : Decidable (Text.Above p q) := inferInstanceAs (Decidable (_ ∨ _))

/-- **Changes are free of conflicts**: of two of them neither stands above the other one. -/
def ConflictFree (changes : Changes) : Prop :=
  changes.keys.Pairwise fun p q => ¬ Text.Above p q ∧ ¬ Text.Above q p

instance (changes : Changes) : Decidable (ConflictFree changes) :=
  inferInstanceAs (Decidable (List.Pairwise _ _))

namespace Text

theorem above_append_dot (p rest : String) : Above p (p ++ "." ++ rest) := by
  refine .inr ?_
  rw [String.toList_append (s := p ++ ".")]
  exact List.prefix_append _ _

theorem dot_mem_append_dot (p rest : String) : '.' ∈ (p ++ "." ++ rest).toList := by
  rw [String.toList_append, String.toList_append]
  simp

theorem eq_append_dot_of_above {p q : String} (h : Above p q) (hne : p ≠ q)
    (hq : q.toList.count '.' ≤ 1) : '.' ∉ p.toList ∧ ∃ rest, q = p ++ "." ++ rest := by
  obtain ⟨rest, hrest⟩ := h.resolve_left hne
  have heq : q = p ++ "." ++ String.ofList rest := by
    rw [← String.toList_inj, String.toList_append, String.toList_ofList, hrest]
  refine ⟨fun hdot => ?_, _, heq⟩
  have hcount : 0 < p.toList.count '.' := List.count_pos_iff.mpr hdot
  rw [← hrest, String.toList_append, List.count_append, List.count_append] at hq
  have hone : (".").toList.count '.' = 1 := by decide
  omega

end Text

namespace Schema

variable {s : Schema} {patch : Document} {existing : Option Document}
  {g f : Field} {name leaf key : String} {names properties paths : List String}

/-- **A schema that tells its fields apart**: their names are distinct and have no dots. -/
structure Distinct (s : Schema) : Prop where
  nodup : (s.fields.map Field.name).Nodup
  dotless : ∀ f ∈ s.fields, '.' ∉ f.name.toList

theorem Lawful.distinct (h : s.Lawful) : s.Distinct := ⟨h.nodup, h.dotless⟩

theorem Distinct.eq_of_name_eq (hs : s.Distinct) (hf : f ∈ s.fields) (hg : g ∈ s.fields)
    (h : f.name = g.name) : f = g :=
  List.inj_on_of_nodup_map hs.nodup hf hg h

/-! ### Names below a field -/

/-- **The first of the names that leads into the field.** -/
def firstInto? (s : Schema) (names : List String) (g : Field) : Option String :=
  names.find? fun name => (s.reached? name).map Field.name = some g.name

/-- **The first name that leads into the field** leads to a part of it that can be written by
itself. -/
def StartsBelow (s : Schema) (existing : Option Document) (names : List String) (g : Field) :
    Prop :=
  HoldsParts existing g ∧ ∃ name, s.firstInto? names g = some name ∧ leafIn? g name ≠ none

/-- **A field is torn** by names: the first one that leads into it leads to a part of it, and
another one to the whole, or the field is computed from a field that is named. -/
structure Torn (s : Schema) (existing : Option Document) (names : List String) (g : Field) :
    Prop where
  below : s.StartsBelow existing names g
  whole : s.NamesWhole existing names g ∨ s.Follows names g

theorem reaches_iff (hs : s.Distinct) (hg : g ∈ s.fields) :
    (s.reached? name).map Field.name = some g.name ↔ s.reached? name = some g := by
  constructor
  · intro h
    obtain ⟨f, hf, hname⟩ := Option.map_eq_some_iff.mp h
    rw [hf, hs.eq_of_name_eq (mem_of_reached? hf).1 hg hname]
  · intro h
    rw [h, Option.map_some]

/-- **A field is left in parts first** just if some part of it is named in time. -/
theorem startsBelow_iff (hs : s.Distinct) (hg : g ∈ s.fields) :
    s.StartsBelow existing names g ↔ ∃ leaf, s.NamesInTime existing names g leaf := by
  have hreaches : ∀ name, decide ((s.reached? name).map Field.name = some g.name) = true ↔
      s.reached? name = some g := fun name => by rw [decide_eq_true_iff, reaches_iff hs hg]
  constructor
  · rintro ⟨hparts, name, hfirst, hbelow⟩
    obtain ⟨hreach, before, after, rfl, hnone⟩ := List.find?_eq_some_iff_append.mp hfirst
    obtain ⟨leaf, hleaf⟩ := Option.ne_none_iff_exists'.mp hbelow
    refine ⟨leaf, before, name, ⟨after, (List.append_cons _ _ _).symm⟩, (hreaches name).mp hreach,
      hleaf, hparts, ?_⟩
    rintro ⟨x, hx, hreach', -⟩
    have hskipped := hnone x hx
    rw [(hreaches x).mpr hreach'] at hskipped
    cases hskipped
  · rintro ⟨leaf, before, name, ⟨after, rfl⟩, hreach, hleaf, hparts, hnew⟩
    refine ⟨hparts, ?_⟩
    rw [firstInto?, List.append_assoc, List.find?_append]
    cases hfirst : before.find? fun name => (s.reached? name).map Field.name = some g.name with
    | some first =>
      refine ⟨first, rfl, fun hwhole => hnew ⟨first, List.mem_of_find?_eq_some hfirst, ?_⟩⟩
      have hfound := List.find?_some
        (p := fun name => decide ((s.reached? name).map Field.name = some g.name)) hfirst
      exact ⟨(hreaches first).mp hfound, .inl hwhole⟩
    | none =>
      refine ⟨name, ?_, by simp [hleaf]⟩
      rw [Option.none_or, List.singleton_append, List.find?_cons, (hreaches name).mpr hreach]

/-! ### The whole plan -/

/-- **What a plan changes**: fields as a whole, and parts of fields that were left in parts
first. -/
theorem mem_keys_plan_cases (hs : s.Distinct)
    (hkey : key ∈ (s.plan properties paths patch existing).keys) :
    ∃ g ∈ s.fields, key = g.name ∧ (s.NamesWhole existing (s.plannedNames properties paths) g ∨
        s.Follows (s.plannedNames properties paths) g) ∨
      s.StartsBelow existing (s.plannedNames properties paths) g ∧
        ∃ leaf, '.' ∉ leaf.toList ∧ key = g.name ++ "." ++ leaf := by
  rcases mem_keys_changesFor.mp hkey with ⟨g, hname, hwhole⟩ | ⟨g, leaf, hname, hpart⟩ |
    ⟨g, hg, hfollows, hname⟩
  · exact ⟨g, hwhole.named.mem.1, .inl ⟨hname, .inl hwhole⟩⟩
  · have hg : g ∈ s.fields := hpart.named.mem.1
    obtain ⟨_, _, -, -, hleaf, -⟩ := id hpart
    exact ⟨g, hg, .inr ⟨(startsBelow_iff hs hg).mpr ⟨leaf, hpart⟩, leaf, dotless_leaf hleaf, hname⟩⟩
  · exact ⟨g, hg, .inl ⟨hname, .inr hfollows⟩⟩

/-- **A torn field** is changed as a whole, and so is a part of it. -/
theorem Torn.mem_keys (hs : s.Distinct) (hg : g ∈ s.fields)
    (h : s.Torn existing (s.plannedNames properties paths) g) (patch : Document) :
    g.name ∈ (s.plan properties paths patch existing).keys ∧
      ∃ leaf, g.name ++ "." ++ leaf ∈ (s.plan properties paths patch existing).keys := by
  constructor
  · rcases h.whole with hwhole | hfollows
    · exact mem_keys_changesFor.mpr (.inl ⟨g, rfl, hwhole⟩)
    · exact mem_keys_changesFor.mpr (.inr (.inr ⟨g, hg, hfollows, rfl⟩))
  · obtain ⟨leaf, hleaf⟩ := (startsBelow_iff hs hg).mp h.below
    exact ⟨leaf, mem_keys_changesFor.mpr (.inr (.inl ⟨g, leaf, rfl, hleaf⟩))⟩

/-- Above a change of a plan stands another one only if a field is torn. -/
theorem torn_of_above (hs : s.Distinct) {p q : String}
    (hp : p ∈ (s.plan properties paths patch existing).keys)
    (hq : q ∈ (s.plan properties paths patch existing).keys) (hne : p ≠ q) (h : Text.Above p q) :
    ∃ g ∈ s.fields, s.Torn existing (s.plannedNames properties paths) g := by
  obtain ⟨g, hg, hgp⟩ := mem_keys_plan_cases hs hp
  obtain ⟨f, hf, hfq⟩ := mem_keys_plan_cases hs hq
  have hdots : q.toList.count '.' ≤ 1 := by
    rcases hfq with ⟨rfl, -⟩ | ⟨-, leaf, hleaf, rfl⟩
    · rw [List.count_eq_zero.mpr (hs.dotless f hf)]
      exact Nat.zero_le 1
    · have hone : (".").toList.count '.' = 1 := by decide
      refine Nat.le_of_eq ?_
      rw [String.toList_append, String.toList_append, List.count_append, List.count_append, hone,
        List.count_eq_zero.mpr (hs.dotless f hf), List.count_eq_zero.mpr hleaf]
  obtain ⟨hdotless, rest, rfl⟩ := Text.eq_append_dot_of_above h hne hdots
  rcases hgp with ⟨rfl, hwhole⟩ | ⟨-, leaf, -, rfl⟩
  · rcases hfq with ⟨hname, -⟩ | ⟨hstarts, leaf, -, hname⟩
    · exact absurd (hname ▸ Text.dot_mem_append_dot _ _) (hs.dotless f hf)
    · have hfg : g.name = f.name := by
        rw [← Text.headSegment_append_dot (hs.dotless g hg) rest, hname,
          Text.headSegment_append_dot (hs.dotless f hf)]
      obtain rfl := hs.eq_of_name_eq hg hf hfg
      exact ⟨g, hg, hstarts, hwhole⟩
  · exact absurd (Text.dot_mem_append_dot _ _) hdotless

/-- **A plan is free of conflicts just if it tears no field**: none that holds an object whose parts
may be written by themselves, to a part of which the first name leads, and which another name asks
for as a whole, or which is computed from a field that is named. -/
theorem conflictFree_plan_iff (hs : s.Distinct) (properties paths : List String) (patch : Document)
    (existing : Option Document) :
    ConflictFree (s.plan properties paths patch existing) ↔
      ∀ g ∈ s.fields, ¬ s.Torn existing (s.plannedNames properties paths) g := by
  constructor
  · intro hfree g hg htorn
    obtain ⟨hroot, leaf, hleaf⟩ := htorn.mem_keys hs hg patch
    have hne : g.name ≠ g.name ++ "." ++ leaf := fun heq =>
      hs.dotless g hg (heq ▸ Text.dot_mem_append_dot _ _)
    have hsymm : Std.Symm fun p q => ¬ Text.Above p q ∧ ¬ Text.Above q p :=
      ⟨fun p q h => ⟨h.2, h.1⟩⟩
    exact (List.Pairwise.forall hfree hroot hleaf hne).1 (Text.above_append_dot _ _)
  · intro hwhole
    refine (s.nodup_keys_changesFor _ patch existing).pairwise_of_forall_ne
      fun p hp q hq hne => ⟨fun habove => ?_, fun habove => ?_⟩
    · obtain ⟨g, hg, htorn⟩ := torn_of_above hs hp hq hne habove
      exact hwhole g hg htorn
    · obtain ⟨g, hg, htorn⟩ := torn_of_above hs hq hp hne.symm habove
      exact hwhole g hg htorn

end Schema

namespace Directory

/-- The plan for the settings of a category that has none, by two paths. -/
def settingsPlan (paths : List String) : Changes :=
  Category.kind.schema.plan [] paths [("settings", .null)] (some [("settings", .document [])])

/-- **Settings are torn** by a path to a part of them and one to the whole, and not by the same
paths in the other order. -/
theorem settings_torn : Category.kind.schema.Distinct ∧
    ¬ ConflictFree (settingsPlan ["settings.priority", "settings"]) ∧
    (∃ g ∈ Category.kind.schema.fields,
      Category.kind.schema.Torn (some [("settings", .document [])])
        (Category.kind.schema.plannedNames [] ["settings.priority", "settings"]) g) ∧
    ConflictFree (settingsPlan ["settings", "settings.priority"]) := by
  have hs : Category.kind.schema.Distinct := Category.lawful.schema.distinct
  have hconflict : ¬ ConflictFree (settingsPlan ["settings.priority", "settings"]) := by
    decide +kernel
  refine ⟨hs, hconflict, ?_, by decide +kernel⟩
  by_contra hnone
  refine hconflict ((Schema.conflictFree_plan_iff hs _ _ _ _).mpr fun g hg htorn => ?_)
  exact hnone ⟨g, hg, htorn⟩

end Directory

end Registrar
