import Registrar.Proofs.Change.Fieldwise
import Registrar.Proofs.Dialect.MappedKeys
import Mathlib.Data.List.Induction

/-!
# The paths that a plan changes

A plan changes fields as a whole, and parts of the objects in them. Which ones is told by the names
alone, whatever the patch holds. A field is changed as a whole if some name asks for this or if it
is computed from a field that is named. A part is changed by itself if a name leads to it in time,
before any name asks for the whole. This is so for every schema, also for one that does not tell its
fields apart, since names lead to the first field that they fit.

* `Schema.NamesWhole`, `Schema.NamesInTime`: what names ask for.
* `Schema.Accounts`: the changes planned so far, one name after the other.
* `mem_keys_changesFor`: the paths that are changed for names.
* `nodup_keys_changesFor`: no path is changed twice.
-/

namespace Registrar

namespace Schema

variable {s : Schema} {patch : Document} {existing : Option Document} {st : PlanState}
  {g f : Field} {name leaf key : String} {names before : List String}

/-! ### What names ask for -/

/-- **Some name asks for the whole field**: it leads to the field itself, or to a part that cannot
be written by itself. -/
def NamesWhole (s : Schema) (existing : Option Document) (names : List String) (g : Field) : Prop :=
  ∃ name ∈ names, s.reached? name = some g ∧ (leafIn? g name = none ∨ ¬ HoldsParts existing g)

/-- **A part is named in time**: some name leads to it, it can be written by itself, and no name
before asks for the whole field. -/
def NamesInTime (s : Schema) (existing : Option Document) (names : List String) (g : Field)
    (leaf : String) : Prop :=
  ∃ before name, before ++ [name] <+: names ∧ s.reached? name = some g ∧
    leafIn? g name = some leaf ∧ HoldsParts existing g ∧ ¬ s.NamesWhole existing before g

/-- The changes for these names, one after the other. -/
def changesFor (s : Schema) (names : List String) (patch : Document) (existing : Option Document) :
    Changes :=
  s.withDerived patch (names.foldl (s.planName patch existing) ⟨[], []⟩).changes

/-! ### Fields that are found -/

theorem dotless_of_fieldAmong? {fs : List Field} (h : fieldAmong? fs name = some f)
    (hname : '.' ∉ name.toList) : '.' ∉ f.name.toList := by
  have hkey : nameKey f.name = nameKey name := by simpa using List.find?_some h
  rwa [dot_mem_iff_of_nameKey hkey]

theorem fieldAmong?_self {fs : List Field} (h : fieldAmong? fs name = some f) :
    fieldAmong? fs f.name = some f := by
  have hkey : nameKey f.name = nameKey name := by simpa using List.find?_some h
  rwa [fieldAmong?, hkey]

theorem dotless_leaf (h : leafIn? g name = some leaf) : '.' ∉ leaf.toList := by
  obtain ⟨cut, -, rfl⟩ := Option.map_eq_some_iff.mp h
  have hhead := Text.dotless_headSegment cut.2
  rw [leafName]
  cases hc : g.child? (Text.headSegment cut.2) with
  | none => exact hhead
  | some c => exact dotless_of_fieldAmong? hc hhead

/-- **A field that a name leads into** is found by its own name, which has no dots. -/
theorem field?_of_reached? (h : s.reached? name = some g) :
    s.field? g.name = some g ∧ '.' ∉ g.name.toList ∧ g.isInternal = false := by
  obtain ⟨hfound, hwritten⟩ := Option.filter_eq_some_iff.mp h
  exact ⟨fieldAmong?_self hfound, dotless_of_fieldAmong? hfound (Text.dotless_headSegment _),
    by simpa using hwritten⟩

theorem eq_of_reached? {a b : String} (hf : s.reached? a = some f) (hg : s.reached? b = some g)
    (h : f.name = g.name) : f = g := by
  have hfield := (field?_of_reached? hf).1
  rw [h, (field?_of_reached? hg).1] at hfield
  exact (Option.some.inj hfield).symm

theorem headSegment_of_reached? (h : s.reached? name = some g) :
    Text.headSegment g.name = g.name :=
  Text.headSegment_of_dotless (field?_of_reached? h).2.1

/-! ### Keys of changes -/

theorem mem_keys_putFields {fs : List Field} {changes : Changes} :
    key ∈ (fs.foldl (fun c f => Document.put c f.name (patch.valueOrNull f.name)) changes).keys ↔
      key ∈ changes.keys ∨ ∃ f ∈ fs, key = f.name := by
  induction fs generalizing changes with
  | nil => simp
  | cons f fs ih =>
    rw [List.foldl_cons, ih, Document.mem_keys_put, List.exists_mem_cons_iff, or_assoc,
      or_left_comm]

/-! ### One name after the other -/

theorem namesWhole_append_iff : s.NamesWhole existing (names ++ [name]) g ↔
    s.NamesWhole existing names g ∨
      s.reached? name = some g ∧ (leafIn? g name = none ∨ ¬ HoldsParts existing g) := by
  simp only [NamesWhole, List.mem_append, List.mem_singleton, or_and_right, exists_or,
    exists_eq_left]

theorem NamesWhole.named (h : s.NamesWhole existing names g) : s.Names names g := by
  obtain ⟨name, hname, hreach, -⟩ := h
  exact ⟨name, hname, hreach⟩

theorem namesInTime_append_iff : s.NamesInTime existing (names ++ [name]) g leaf ↔
    s.NamesInTime existing names g leaf ∨ s.reached? name = some g ∧ leafIn? g name = some leaf ∧
      HoldsParts existing g ∧ ¬ s.NamesWhole existing names g := by
  constructor
  · rintro ⟨before, name', hprefix, hrest⟩
    rcases List.prefix_concat_iff.mp hprefix with heq | hold
    · obtain ⟨rfl, hname⟩ := List.append_inj' heq rfl
      obtain rfl := List.singleton_inj.mp hname
      exact .inr hrest
    · exact .inl ⟨before, name', hold, hrest⟩
  · rintro (⟨before, name', hprefix, hrest⟩ | hrest)
    · exact ⟨before, name', hprefix.trans (List.prefix_append _ _), hrest⟩
    · exact ⟨names, name, List.prefix_rfl, hrest⟩

/-- **A field that is named** is asked for as a whole, or a part of it is named in time. -/
theorem namesWhole_or_namesInTime (h : s.Names names g) :
    s.NamesWhole existing names g ∨ ∃ leaf, s.NamesInTime existing names g leaf := by
  induction names using List.reverseRecOn with
  | nil =>
    obtain ⟨_, hname, -⟩ := h
    cases hname
  | append_singleton names name ih =>
    simp only [namesInTime_append_iff, namesWhole_append_iff]
    rcases names_append.mp h with hold | hreach
    · rcases ih hold with hwhole | ⟨leaf, hleaf⟩
      · exact .inl (.inl hwhole)
      · exact .inr ⟨leaf, .inl hleaf⟩
    · by_cases hwhole : s.NamesWhole existing names g
      · exact .inl (.inl hwhole)
      · by_cases hundivided : leafIn? g name = none ∨ ¬ HoldsParts existing g
        · exact .inl (.inr ⟨hreach, hundivided⟩)
        · rw [not_or, not_not] at hundivided
          obtain ⟨leaf, hleaf⟩ := Option.ne_none_iff_exists'.mp hundivided.1
          exact .inr ⟨leaf, .inr ⟨hreach, hleaf, hundivided.2, hwhole⟩⟩

theorem NamesInTime.named (h : s.NamesInTime existing names g leaf) : s.Names names g := by
  obtain ⟨before, name, hprefix, hreach, -⟩ := h
  exact ⟨name, hprefix.subset (List.mem_append_right _ (List.mem_singleton_self _)), hreach⟩

/-- **The changes planned so far account for the names**: those fields are written as a whole for
which some name asks, and those parts by themselves that are named in time. -/
structure Accounts (s : Schema) (existing : Option Document) (names : List String)
    (st : PlanState) : Prop where
  whole : ∀ root, root ∈ st.replaced ↔ ∃ g, g.name = root ∧ s.NamesWhole existing names g
  keys : ∀ key, key ∈ st.changes.keys ↔ (∃ g, key = g.name ∧ s.NamesWhole existing names g) ∨
    ∃ g leaf, key = g.name ++ "." ++ leaf ∧ s.NamesInTime existing names g leaf

namespace Accounts

theorem nil : s.Accounts existing [] ⟨[], []⟩ where
  whole root := by simp [NamesWhole]
  keys key := by
    refine iff_of_false List.not_mem_nil ?_
    rintro (⟨g, -, name, hname, -⟩ | ⟨g, leaf, -, hleaf⟩)
    · cases hname
    · obtain ⟨_, hname, -⟩ := hleaf.named
      cases hname

theorem mem_replaced_iff (h : s.Accounts existing names st) (hreach : s.reached? name = some f) :
    f.name ∈ st.replaced ↔ s.NamesWhole existing names f := by
  rw [h.whole]
  constructor
  · rintro ⟨g, hname, hwhole⟩
    obtain ⟨_, -, hreach', -⟩ := id hwhole
    rwa [← eq_of_reached? hreach' hreach hname]
  · exact fun hwhole => ⟨f, rfl, hwhole⟩

theorem skips (h : s.Accounts existing names st)
    (hskip : ∀ f, s.reached? name = some f → f.name ∈ st.replaced) :
    s.Accounts existing (names ++ [name]) st := by
  have hwhole : ∀ g, s.NamesWhole existing (names ++ [name]) g ↔ s.NamesWhole existing names g := by
    intro g
    rw [namesWhole_append_iff]
    exact or_iff_left_of_imp fun hnew => (h.mem_replaced_iff hnew.1).mp (hskip g hnew.1)
  have hpart : ∀ g leaf, s.NamesInTime existing (names ++ [name]) g leaf ↔
      s.NamesInTime existing names g leaf := by
    intro g leaf
    rw [namesInTime_append_iff]
    exact or_iff_left fun hnew =>
      hnew.2.2.2 ((h.mem_replaced_iff hnew.1).mp (hskip g hnew.1))
  constructor
  · simpa only [hwhole] using h.whole
  · simpa only [hwhole, hpart] using h.keys

theorem replace (h : s.Accounts existing names st) (hreach : s.reached? name = some f)
    (hnew : f.name ∉ st.replaced) (hundivided : leafIn? f name = none ∨ ¬ HoldsParts existing f) :
    s.Accounts existing (names ++ [name]) (st.replace f.name patch) := by
  have hwhole : ∀ g, s.NamesWhole existing (names ++ [name]) g ↔
      s.NamesWhole existing names g ∨ g = f := by
    intro g
    rw [namesWhole_append_iff]
    refine or_congr_right ⟨fun hnow => ?_, ?_⟩
    · exact Option.some.inj (hnow.1.symm.trans hreach)
    · rintro rfl
      exact ⟨hreach, hundivided⟩
  have hpart : ∀ g leaf, s.NamesInTime existing (names ++ [name]) g leaf ↔
      s.NamesInTime existing names g leaf := by
    intro g leaf
    rw [namesInTime_append_iff]
    refine or_iff_left ?_
    rintro ⟨hreach', hleaf, hparts, -⟩
    obtain rfl := Option.some.inj (hreach'.symm.trans hreach)
    exact hundivided.elim (by simp [hleaf]) fun hnot => hnot hparts
  rw [PlanState.replace, if_neg hnew]
  constructor
  · intro root
    simp only [List.mem_cons, h.whole, hwhole, and_or_left, exists_or, exists_eq_right]
    rw [or_comm, eq_comm]
  · intro key
    simp only [Document.mem_keys_put, h.keys, hwhole, hpart, and_or_left, exists_or,
      exists_eq_right]
    rw [or_comm, or_right_comm]

theorem setLeaf (h : s.Accounts existing names st) (hreach : s.reached? name = some f)
    (hleaf : leafIn? f name = some leaf) (hnew : f.name ∉ st.replaced)
    (hdivided : HoldsParts existing f) :
    s.Accounts existing (names ++ [name]) (st.setLeaf f.name leaf patch) := by
  have hwhole : ∀ g, s.NamesWhole existing (names ++ [name]) g ↔ s.NamesWhole existing names g := by
    intro g
    rw [namesWhole_append_iff]
    refine or_iff_left ?_
    rintro ⟨hreach', hundivided⟩
    obtain rfl := Option.some.inj (hreach'.symm.trans hreach)
    exact hundivided.elim (by simp [hleaf]) fun hnot => hnot hdivided
  have hpart : ∀ g leaf', s.NamesInTime existing (names ++ [name]) g leaf' ↔
      s.NamesInTime existing names g leaf' ∨ g = f ∧ leaf' = leaf := by
    intro g leaf'
    rw [namesInTime_append_iff]
    refine or_congr_right ⟨?_, ?_⟩
    · rintro ⟨hreach', hleaf', -⟩
      obtain rfl := Option.some.inj (hreach'.symm.trans hreach)
      exact ⟨rfl, Option.some.inj (hleaf'.symm.trans hleaf)⟩
    · rintro ⟨rfl, rfl⟩
      exact ⟨hreach, hleaf, hdivided, mt (h.mem_replaced_iff hreach).mpr hnew⟩
  constructor
  · simpa only [hwhole, PlanState.setLeaf] using h.whole
  · intro key
    have hset : (∃ g leaf', key = g.name ++ "." ++ leaf' ∧ g = f ∧ leaf' = leaf) ↔
        key = f.name ++ "." ++ leaf := by
      refine ⟨?_, fun hkey => ⟨f, leaf, hkey, rfl, rfl⟩⟩
      rintro ⟨_, _, hkey, rfl, rfl⟩
      exact hkey
    simp only [PlanState.setLeaf, Document.mem_keys_put, h.keys, hwhole, hpart, and_or_left,
      exists_or, hset]
    rw [or_comm, or_assoc]

theorem planName (h : s.Accounts existing names st) (patch : Document) (name : String) :
    s.Accounts existing (names ++ [name]) (s.planName patch existing st name) := by
  have hputs := s.puts_planName patch existing st name
  generalize s.planName patch existing st name = st' at hputs ⊢
  cases hputs with
  | skips hskip => exact h.skips hskip
  | whole hreach hnew hundivided => exact h.replace hreach hnew hundivided
  | part hreach hleaf hnew hdivided => exact h.setLeaf hreach hleaf hnew hdivided

theorem foldl (h : s.Accounts existing before st) (patch : Document) (names : List String) :
    s.Accounts existing (before ++ names) (names.foldl (s.planName patch existing) st) := by
  -- The names that are done move over to `before`, one by one.
  induction names generalizing before st with
  | nil => rwa [List.append_nil]
  | cons name names ih =>
    rw [List.append_cons, List.foldl_cons]
    exact ih (h.planName patch name)

end Accounts

/-! ### The whole plan -/

/-- **Which changes are made for names**: fields as a whole and parts of them for which the names
ask one after the other, and the fields that are computed from those that are named. -/
theorem mem_keys_changesFor : key ∈ (s.changesFor names patch existing).keys ↔
    (∃ g, key = g.name ∧ s.NamesWhole existing names g) ∨
      (∃ g leaf, key = g.name ++ "." ++ leaf ∧ s.NamesInTime existing names g leaf) ∨
        ∃ f ∈ s.fields, s.Follows names f ∧ key = f.name := by
  have haccounts : s.Accounts existing names (names.foldl (s.planName patch existing) ⟨[], []⟩) :=
    Accounts.nil.foldl patch names
  generalize hst : names.foldl (s.planName patch existing) ⟨[], []⟩ = st at haccounts
  have hroots : ∀ root, root ∈ st.changes.keys.map Text.headSegment ↔
      ∃ g, root = g.name ∧ s.Names names g := by
    intro root
    rw [List.mem_map]
    constructor
    · rintro ⟨key, hkey, rfl⟩
      rcases (haccounts.keys key).mp hkey with ⟨g, rfl, hwhole⟩ | ⟨g, leaf, rfl, hleaf⟩
      · obtain ⟨_, -, hreach⟩ := hwhole.named
        exact ⟨g, headSegment_of_reached? hreach, hwhole.named⟩
      · obtain ⟨_, -, hreach⟩ := hleaf.named
        exact ⟨g, Text.headSegment_append_dot (field?_of_reached? hreach).2.1 leaf, hleaf.named⟩
    · rintro ⟨g, rfl, hnames⟩
      obtain ⟨_, -, hreach⟩ := id hnames
      rcases namesWhole_or_namesInTime hnames with hwhole | ⟨leaf, hleaf⟩
      · exact ⟨_, (haccounts.keys _).mpr (.inl ⟨g, rfl, hwhole⟩), headSegment_of_reached? hreach⟩
      · exact ⟨_, (haccounts.keys _).mpr (.inr ⟨g, leaf, rfl, hleaf⟩),
          Text.headSegment_append_dot (field?_of_reached? hreach).2.1 leaf⟩
  have hcomputed : ∀ f, f ∈ (st.changes.keys.map Text.headSegment).flatMap s.computedFrom ↔
      f ∈ s.fields ∧ s.Follows names f := by
    intro f
    simp only [List.mem_flatMap, hroots, computedFrom, fieldsInRole, List.mem_filter,
      decide_eq_true_eq, Follows]
    constructor
    · rintro ⟨_, ⟨g, rfl, hnames⟩, hf, hrole⟩
      exact ⟨hf, g, hnames, hrole⟩
    · rintro ⟨hf, g, hnames, hrole⟩
      exact ⟨_, ⟨g, rfl, hnames⟩, hf, hrole⟩
  rw [changesFor, withDerived, hst]
  simp only [mem_keys_putFields, haccounts.keys, hcomputed, or_assoc, and_assoc]

theorem nodup_keys_planName (h : st.changes.keys.Nodup) (patch : Document) (name : String) :
    (s.planName patch existing st name).changes.keys.Nodup := by
  have hputs := s.puts_planName patch existing st name
  generalize s.planName patch existing st name = st' at hputs ⊢
  cases hputs with
  | skips => exact h
  | whole _ hnew =>
    rw [PlanState.replace, if_neg hnew]
    exact Document.nodup_keys_put h _ _
  | part => exact Document.nodup_keys_put h _ _

/-- **No path is changed twice.** -/
theorem nodup_keys_changesFor (s : Schema) (names : List String) (patch : Document)
    (existing : Option Document) : (s.changesFor names patch existing).keys.Nodup := by
  have hnamed := List.foldlRecOn (motive := fun st : PlanState => st.changes.keys.Nodup) names
    (s.planName patch existing) (b := ⟨[], []⟩) List.nodup_nil
    fun _ h name _ => nodup_keys_planName h patch name
  exact List.foldlRecOn (motive := fun c : Changes => c.keys.Nodup) _ _ hnamed
    fun c hc f _ => Document.nodup_keys_put hc _ _

end Schema

end Registrar
