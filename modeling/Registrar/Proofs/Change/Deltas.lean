import Registrar.Proofs.Change.Fieldwise

/-!
# What a delta names

A delta names fields by its properties, and fields or parts of objects by its paths. Once its plan
is written, a document holds what the patch has wherever a name leads, and what it held everywhere
else. This file says so of one document, in terms of the names alone.

* `Delta.Plain`: deltas whose properties have no dots, and whose names have no blanks around them.
* `Delta.Applied`: what the document holds afterwards.
* `applied_plan`, `Applied.congr`: a plan does this, and stamps do not undo it.
* `plan_eq_nil_iff`: a delta that names no field plans nothing.
-/

namespace Registrar

/-- Fields that tell of the writes themselves: when, by whom, and how many. -/
def Field.isStamp (f : Field) : Bool :=
  match f.role with
  | .updatedAt | .updatedBy | .version => true
  | _ => false

namespace Delta

variable {E : Type}

/-- **All that a delta names.** -/
def names (delta : Delta E) : List String := delta.properties ++ delta.paths

/-- Properties have no dots, and names no blanks around them. -/
structure Plain (delta : Delta E) : Prop where
  dotless : ∀ p ∈ delta.properties, '.' ∉ p.toList
  trimmed : ∀ name ∈ delta.names, Text.trim name = name

instance (delta : Delta E) : Decidable delta.Plain :=
  decidable_of_iff ((∀ p ∈ delta.properties, '.' ∉ p.toList) ∧
    ∀ name ∈ delta.names, Text.trim name = name) ⟨fun h => ⟨h.1, h.2⟩, fun h => ⟨h.1, h.2⟩⟩

theorem Plain.trimmed_properties {delta : Delta E} (h : delta.Plain) :
    ∀ p ∈ delta.properties, Text.trim p = p :=
  fun p hp => h.trimmed p (List.mem_append_left _ hp)

/-- **What a document holds after a delta was applied.** A named field is written as a whole when it
holds a list or a map, when no path leads into it, when one leads to it and not below it, or when it
held no object. Otherwise the parts that paths name are written. -/
structure Applied (sc : Schema) (delta : Delta E) (patch d d' : Document) : Prop where
  /-- A field that is not named, nor computed from a named one, stays, unless it is a stamp. -/
  others : ∀ name, (∀ f ∈ sc.fields, f.name = name → f.isStamp = false ∧
      ¬ sc.Names delta.names f ∧ ¬ sc.Follows delta.names f) → d'.value? name = d.value? name
  /-- Parts that are not named stay, unless the field is computed from a named one. -/
  spared : ∀ f ∈ sc.fields, f.kind.isCollection = false → sc.NamesParts delta.paths f →
    ¬ sc.Follows delta.names f → ∀ inner, d.value? f.name = some (.document inner) →
      ∃ inner', d'.value? f.name = some (.document inner') ∧
        ∀ leaf, ¬ sc.NamesLeaf delta.paths f leaf →
          Document.value? inner' leaf = Document.value? inner leaf
  /-- Fields that are written as a whole hold what the patch has. -/
  whole : ∀ f ∈ sc.fields, sc.Names delta.names f →
    (f.kind.isCollection = true ∨ ¬ sc.NamesParts delta.paths f ∨
      ∀ inner, d.value? f.name ≠ some (.document inner)) →
        d'.value? f.name = some (patch.valueOrNull f.name)
  /-- Parts that are named hold what the patch has, and null when it has none. -/
  parts : ∀ f ∈ sc.fields, ∀ leaf, sc.NamesLeaf delta.paths f leaf →
    d'.leafOrNull f.name leaf = patch.leafOrNull f.name leaf
  /-- Fields that are computed from named ones hold what the patch has. -/
  derived : ∀ f ∈ sc.fields, sc.Follows delta.names f →
    d'.value? f.name = some (patch.valueOrNull f.name)

end Delta

namespace Schema

variable {s : Schema} {patch d : Document} {existing : Option Document} {g f : Field}
  {leaf : String} {properties paths : List String}

/-! ### Names as they are written -/

theorem leafIn?_property (hdot : ∀ p ∈ properties, '.' ∉ p.toList)
    (htrim : ∀ p ∈ properties, Text.trim p = p) {p : String} (hp : p ∈ properties) :
    leafIn? g p = none := by
  rw [leafIn?, htrim p hp, Text.cutPath_eq_none_iff.mpr (hdot p hp), Option.map_none]

theorem namesLeaf_planned_iff (hdot : ∀ p ∈ properties, '.' ∉ p.toList)
    (htrim : ∀ p ∈ properties, Text.trim p = p) :
    s.NamesLeaf (s.plannedNames properties paths) g leaf ↔ s.NamesLeaf paths g leaf := by
  constructor
  · rintro ⟨name, hname, hreach, hleaf⟩
    rcases List.mem_append.mp hname with hname | hname
    · exact ⟨name, hname, hreach, hleaf⟩
    · rw [leafIn?_property hdot htrim (List.mem_filter.mp hname).1] at hleaf
      cases hleaf
  · rintro ⟨name, hname, hreach, hleaf⟩
    exact ⟨name, List.mem_append_left _ hname, hreach, hleaf⟩

/-- **A property into which a path leads** is not planned by itself. -/
theorem namesParts_planned_iff (hdot : ∀ p ∈ properties, '.' ∉ p.toList)
    (htrim : ∀ p ∈ properties, Text.trim p = p) :
    s.NamesParts (s.plannedNames properties paths) g ↔ s.NamesParts paths g := by
  constructor
  · rintro ⟨⟨name, hname, hreach⟩, hall⟩
    refine ⟨?_, fun x hx => hall x (List.mem_append_left _ hx)⟩
    rcases List.mem_append.mp hname with hpath | hproperty
    · exact ⟨name, hpath, hreach⟩
    · exact absurd (leafIn?_property hdot htrim (List.mem_filter.mp hproperty).1)
        (hall name hname hreach)
  · rintro ⟨⟨path, hpath, hreach⟩, hall⟩
    refine ⟨⟨path, List.mem_append_left _ hpath, hreach⟩, fun name hname hreach' => ?_⟩
    rcases List.mem_append.mp hname with hname | hname
    · exact hall name hname hreach'
    -- the path that leads into the field covers the property
    · exfalso
      obtain ⟨hproperty, huncovered⟩ := List.mem_filter.mp hname
      have hfield : ∀ {x : String}, s.reached? x = some g →
          s.field? (Text.headSegment (Text.trim x)) = some g := fun hx =>
        (Option.filter_eq_some_iff.mp hx).1
      have hown := hfield hreach'
      rw [Text.headSegment_of_dotless (by rw [htrim name hproperty]; exact hdot name hproperty)]
        at hown
      rw [hown, decide_eq_true_iff] at huncovered
      refine huncovered (List.mem_filterMap.mpr ⟨path, hpath, ?_⟩)
      rw [hfield hreach, Option.map_some]

/-! ### Plans -/

/-- **Nothing is planned** just if no field is named. -/
theorem plan_eq_nil_iff (hs : s.Lawful) :
    s.plan properties paths patch existing = [] ↔
      ∀ f, ¬ s.Names (s.plannedNames properties paths) f := by
  have hcovers := covers_named hs properties paths patch existing
  constructor
  · intro hnil f hf
    obtain ⟨p, hp, hhead⟩ := hcovers.named f hf
    have hkept : ∀ (fs : List Field) (c : Changes), c ≠ [] →
        fs.foldl (fun c f => Document.put c f.name (patch.valueOrNull f.name)) c ≠ [] := by
      intro fs c hc
      refine List.foldlRecOn (motive := fun c : Changes => c ≠ []) _ _ hc fun c hc x _ => ?_
      exact List.ne_nil_of_mem (mem_put_self c x.name _)
    rw [plan_eq] at hnil
    exact hkept _ _ (List.ne_nil_of_mem hp) hnil
  · intro hnone
    have hempty : (s.named properties paths patch existing).changes = [] := by
      refine List.eq_nil_iff_forall_not_mem.mpr fun p hp => ?_
      obtain ⟨f, hf, -⟩ := hcovers.heads p hp
      exact hnone f hf
    rw [plan_eq, hempty]
    rfl

theorem follows_planned_iff (hs : s.Lawful) :
    s.Follows (s.plannedNames properties paths) g ↔ s.Follows (properties ++ paths) g :=
  exists_congr fun _ => and_congr_left fun _ => names_planned_iff hs

theorem value?_plan_of_unknown (hs : s.Lawful) {name : String} (h : ∀ f ∈ s.fields, f.name ≠ name) :
    (Document.setAll (s.plan properties paths patch existing) d).value? name = d.value? name := by
  refine Document.value?_setAll_of_ne (fun p hp hhead => ?_) d
  obtain ⟨f, hf, -, hname⟩ := permits_plan hs properties paths patch existing p hp
  exact h f hf (hname.trans hhead.symm)

theorem holdsObject_of_document {inner : Document} (h : d.value? g.name = some (.document inner)) :
    holdsObject (some d) g.name = true := by
  rw [holdsObject, h]
  rfl

theorem holdsObject_eq_false (h : ∀ inner, d.value? g.name ≠ some (.document inner)) :
    holdsObject (some d) g.name = false := by
  rw [holdsObject, Value.document?_eq_none h]
  rfl

variable {E : Type} {delta : Delta E}

theorem plansWhole_of_names (hs : s.Lawful) (hplain : delta.Plain) (hg : g ∈ s.fields)
    (hnames : s.Names delta.names g)
    (h : g.kind.isCollection = true ∨ ¬ s.NamesParts delta.paths g ∨
      ∀ inner, d.value? g.name ≠ some (.document inner)) :
    s.PlansWhole delta.properties delta.paths (some d) g := by
  refine (plansWhole_iff hs hg).mpr (.inr ⟨(names_planned_iff hs).mpr hnames, ?_⟩)
  rcases h with hcollection | hparts | hobject
  · exact .inl (by rw [hcollection, Bool.true_or])
  · exact .inr (mt (namesParts_planned_iff hplain.dotless hplain.trimmed_properties).mp hparts)
  · exact .inl (by rw [holdsObject_eq_false hobject, Bool.not_false, Bool.or_true])

theorem not_plansWhole_of_namesParts (hs : s.Lawful) (hplain : delta.Plain) (hg : g ∈ s.fields)
    (hcollection : g.kind.isCollection = false) (hparts : s.NamesParts delta.paths g)
    (hfollows : ¬ s.Follows delta.names g) {inner : Document}
    (hinner : d.value? g.name = some (.document inner)) :
    ¬ s.PlansWhole delta.properties delta.paths (some d) g := by
  intro hwhole
  rcases (plansWhole_iff hs hg).mp hwhole with hderived | ⟨-, hwritten | hnot⟩
  · exact hfollows ((follows_planned_iff hs).mp hderived)
  · rw [hcollection, holdsObject_of_document hinner] at hwritten
    cases hwritten
  · exact hnot ((namesParts_planned_iff hplain.dotless hplain.trimmed_properties).mpr hparts)

/-- **A plan writes what is named**, and nothing else. -/
theorem applied_plan (hs : s.Lawful) (hl : s.DotlessLeaves) (hplain : delta.Plain)
    (patch d : Document) :
    delta.Applied s patch d
      (Document.setAll (s.plan delta.properties delta.paths patch (some d)) d) where
  others name hname := by
    by_cases hknown : ∃ f ∈ s.fields, f.name = name
    · obtain ⟨f, hf, rfl⟩ := hknown
      obtain ⟨-, hnames, hfollows⟩ := hname f hf rfl
      exact value?_plan_of_spared hs hf (mt (names_planned_iff hs).mp hnames)
        (mt (follows_planned_iff hs).mp hfollows) patch d
    · exact value?_plan_of_unknown hs fun f hf heq => hknown ⟨f, hf, heq⟩
  spared f hf hcollection hparts hfollows inner hinner := by
    have hnot := not_plansWhole_of_namesParts hs hplain hf hcollection hparts hfollows hinner
    have hplanned : s.Names (s.plannedNames delta.properties delta.paths) f :=
      ((namesParts_planned_iff hplain.dotless hplain.trimmed_properties).mpr hparts).1
    refine ⟨_, value?_plan_of_parts hs hl hf hnot hplanned patch d, fun leaf hleaf => ?_⟩
    rw [value?_objectAt_plan_of_not hs hl hf hnot
      (mt (namesLeaf_planned_iff hplain.dotless hplain.trimmed_properties).mp hleaf),
      Document.objectAt_of_value? hinner]
  whole f hf hnames hcases :=
    value?_plan_of_whole hs hf (plansWhole_of_names hs hplain hf hnames hcases) patch d
  parts f hf leaf hleaf := leafOrNull_plan hs hl hf
    ((namesLeaf_planned_iff hplain.dotless hplain.trimmed_properties).mpr hleaf) patch d
  derived f hf hfollows :=
    value?_plan_of_whole hs hf (.inr ((follows_planned_iff hs).mpr hfollows)) patch d

/-! ### What stamps and pruning leave -/

theorem not_isStamp_of_reached? {name : String} (h : s.reached? name = some g) :
    g.isStamp = false := by
  have hinternal : g.isInternal = false := by
    simpa using (Option.filter_eq_some_iff.mp h).2
  revert hinternal
  rw [Field.isInternal, Field.isStamp]
  cases g.role <;> simp

theorem Follows.not_isStamp {names : List String} (h : s.Follows names g) : g.isStamp = false := by
  obtain ⟨source, -, hrole⟩ := h
  rw [Field.isStamp, hrole]

end Schema

namespace Delta.Applied

variable {E : Type} {sc : Schema} {delta : Delta E} {patch patch' d d' d'' : Document}

/-- **Only the fields that are named**, or computed from named ones, matter of the patch, and of the
document all but the stamps. -/
theorem congr (h : delta.Applied sc patch d d') (hs : sc.Lawful)
    (hpatch : ∀ f ∈ sc.fields, sc.Names delta.names f ∨ sc.Follows delta.names f →
      patch'.valueOrNull f.name = patch.valueOrNull f.name)
    (hd : ∀ name, (∀ f ∈ sc.fields, f.name = name → f.isStamp = false) →
      d''.value? name = d'.value? name) : delta.Applied sc patch' d d'' := by
  have hfield : ∀ f ∈ sc.fields, f.isStamp = false → d''.value? f.name = d'.value? f.name :=
    fun f hf hstamp => hd f.name fun g hg hname => hs.eq_of_name_eq hg hf hname ▸ hstamp
  have hnamed : ∀ f ∈ sc.fields, sc.Names delta.names f → d''.value? f.name = d'.value? f.name :=
    fun f hf ⟨_, _, hreach⟩ => hfield f hf (Schema.not_isStamp_of_reached? hreach)
  have hpaths : ∀ {f : Field} {path : String}, path ∈ delta.paths → sc.reached? path = some f →
      sc.Names delta.names f := fun hpath hreach => ⟨_, List.mem_append_right _ hpath, hreach⟩
  refine ⟨fun name hname => ?_, fun f hf hcollection hparts hfollows inner hinner => ?_,
    fun f hf hnames hcases => ?_, fun f hf leaf hleaf => ?_, fun f hf hfollows => ?_⟩
  · rw [hd name fun f hf heq => (hname f hf heq).1, h.others name hname]
  · obtain ⟨path, hpath, hreach⟩ := hparts.1
    rw [hnamed f hf (hpaths hpath hreach)]
    exact h.spared f hf hcollection hparts hfollows inner hinner
  · rw [hnamed f hf hnames, h.whole f hf hnames hcases, hpatch f hf (.inl hnames)]
  · have ⟨path, hpath, hreach, _⟩ := hleaf
    have hnames := hpaths hpath hreach
    have hvalue : d''.valueOrNull f.name = d'.valueOrNull f.name := by
      rw [Document.valueOrNull, Document.valueOrNull, hnamed f hf hnames]
    rw [Document.leafOrNull_congr hvalue, h.parts f hf leaf hleaf,
      Document.leafOrNull_congr (hpatch f hf (.inl hnames))]
  · rw [hfield f hf hfollows.not_isStamp, h.derived f hf hfollows, hpatch f hf (.inr hfollows)]

end Delta.Applied

end Registrar
