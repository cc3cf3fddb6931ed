import Registrar.Proofs.Change.Planned
import Registrar.Proofs.Store.Parts

/-!
# Plans and differences, field by field

What becomes of one field when the changes planned for a delta are written is told by the names
alone. The field is written as a whole, when a name asks for this or when it is computed from a
field that is named. Or else single parts of the object in it are written, and the others stay. Or
else no name leads into it, and it stays as it is. When a difference is written, a field that takes
part in it holds what is proposed, or what it held agrees with this.

* `Schema.reached?`, `Schema.leafIn?`: where a name leads.
* `Schema.Names`, `Schema.Follows`: the fields that are named, and those computed from them.
* `Schema.PlansWhole`: the fields that a plan writes as a whole.
* `value?_plan_of_whole`, `value?_plan_of_parts`, `value?_plan_of_spared`: the three cases.
* `value?_diff`: the fields after a difference was written.
-/

namespace Registrar

namespace Schema

variable {s : Schema} {patch : Document} {existing : Option Document} {st : PlanState}
  {g f : Field} {name leaf : String} {names properties paths : List String}

/-! ### Where names lead -/

/-- **The field into which a name leads**, unless the engine writes it itself. -/
def reached? (s : Schema) (name : String) : Option Field :=
  s.writable? (Text.headSegment (Text.trim name))

/-- **The part of the object in a field** that a name means, if it leads below the field. -/
def leafIn? (g : Field) (name : String) : Option String :=
  (Text.cutPath (Text.trim name)).map fun cut => leafName g (Text.headSegment cut.2)

/-- **Some name leads into the field.** -/
def Names (s : Schema) (names : List String) (g : Field) : Prop :=
  ∃ name ∈ names, s.reached? name = some g

/-- Some name leads to this part of the object in the field. -/
def NamesLeaf (s : Schema) (names : List String) (g : Field) (leaf : String) : Prop :=
  ∃ name ∈ names, s.reached? name = some g ∧ leafIn? g name = some leaf

/-- **The field is computed** from a field that is named. -/
def Follows (s : Schema) (names : List String) (g : Field) : Prop :=
  ∃ source, s.Names names source ∧ g.role = .derived source.name

/-- **Some names lead into the field, and all of these lead below it**, to parts of an object. -/
def NamesParts (s : Schema) (names : List String) (g : Field) : Prop :=
  s.Names names g ∧ ∀ name ∈ names, s.reached? name = some g → leafIn? g name ≠ none

/-- The names for which changes are planned, in this order. -/
def plannedNames (s : Schema) (properties paths : List String) : List String :=
  paths ++ s.uncovered properties paths

/-- **The fields that a plan writes as a whole.** -/
def PlansWhole (s : Schema) (properties paths : List String) (existing : Option Document)
    (g : Field) : Prop :=
  g.name ∈ s.replaced properties paths existing ∨ s.Follows (s.plannedNames properties paths) g

/-- **The parts of objects** that are declared have names without dots. -/
def DotlessLeaves (s : Schema) : Prop :=
  ∀ f ∈ s.fields, ∀ c ∈ f.children, '.' ∉ c.name.toList

instance (s : Schema) : Decidable s.DotlessLeaves :=
  inferInstanceAs (Decidable (∀ f ∈ s.fields, ∀ c ∈ f.children, '.' ∉ c.name.toList))

theorem mem_of_reached? (h : s.reached? name = some g) : g ∈ s.fields ∧ g.isWritten = true :=
  writable?_isWritten h

theorem NamesLeaf.named (h : s.NamesLeaf names g leaf) : s.Names names g := by
  obtain ⟨name, hname, hreach, -⟩ := h
  exact ⟨name, hname, hreach⟩

theorem Names.mem (h : s.Names names g) : g ∈ s.fields ∧ g.isWritten = true := by
  obtain ⟨name, -, hreach⟩ := h
  exact mem_of_reached? hreach

theorem dotless_leafIn? (hd : s.DotlessLeaves) (hg : g ∈ s.fields)
    (h : leafIn? g name = some leaf) : '.' ∉ leaf.toList := by
  obtain ⟨cut, -, rfl⟩ := Option.map_eq_some_iff.mp h
  rw [leafName, Field.child?]
  cases hc : fieldAmong? g.children (Text.headSegment cut.2) with
  | none => exact Text.dotless_headSegment cut.2
  | some c => exact hd g hg c (List.mem_of_find?_eq_some hc)

theorem reached?_of_cutPath {root rest : String}
    (h : Text.cutPath (Text.trim name) = some (root, rest)) :
    s.reached? name = s.writable? root := by
  rw [reached?, Text.headSegment_of_cutPath h]

theorem reached?_of_dotless (h : Text.cutPath (Text.trim name) = none) :
    s.reached? name = s.writable? (Text.trim name) := by
  rw [reached?, Text.headSegment_of_dotless (Text.cutPath_eq_none_iff.mp h)]

/-- A name has a field written as a whole if it leads into it, and not to a part of an object that
can be written by itself. -/
theorem writesWhole_iff :
    s.WritesWhole existing g name ↔ s.reached? name = some g ∧
      (leafIn? g name = none ∨ (g.kind.isCollection || !holdsObject existing g.name) = true) := by
  unfold WritesWhole
  cases hcut : Text.cutPath (Text.trim name) with
  | none => simp [reached?_of_dotless hcut, leafIn?, hcut]
  | some cut => simp [reached?_of_cutPath hcut, leafIn?, hcut]

/-! ### One name after the other -/

/-- **Parts of the field may be written by themselves**: it holds no list and no map, and the
stored entity holds an object there. -/
def HoldsParts (existing : Option Document) (g : Field) : Prop :=
  g.kind.isCollection = false ∧ holdsObject existing g.name = true

/-- What planning a name puts among the changes, if it puts anything. -/
inductive Puts (s : Schema) (patch : Document) (existing : Option Document) (st : PlanState)
    (name : String) : PlanState → Prop where
  | skips (h : ∀ f, s.reached? name = some f → f.name ∈ st.replaced) :
      Puts s patch existing st name st
  | whole {f : Field} (reaches : s.reached? name = some f) (new : f.name ∉ st.replaced)
      (undivided : leafIn? f name = none ∨ ¬ HoldsParts existing f) :
      Puts s patch existing st name (st.replace f.name patch)
  | part {f : Field} {leaf : String} (reaches : s.reached? name = some f)
      (below : leafIn? f name = some leaf) (new : f.name ∉ st.replaced)
      (divided : HoldsParts existing f) :
      Puts s patch existing st name (st.setLeaf f.name leaf patch)

theorem puts_planName (s : Schema) (patch : Document) (existing : Option Document) (st : PlanState)
    (name : String) : s.Puts patch existing st name (s.planName patch existing st name) := by
  have hreplace : ∀ {f}, s.reached? name = some f →
      (leafIn? f name = none ∨ ¬ HoldsParts existing f) →
      s.Puts patch existing st name (st.replace f.name patch) := fun {f} hf hundivided => by
    by_cases hin : f.name ∈ st.replaced
    · rw [PlanState.replace, if_pos hin]
      refine .skips fun f' hf' => ?_
      obtain rfl := Option.some.inj (hf.symm.trans hf')
      exact hin
    · exact .whole hf hin hundivided
  cases hcut : Text.cutPath (Text.trim name) with
  | none =>
    have hreach := reached?_of_dotless (s := s) hcut
    simp only [planName, hcut]
    cases hf : s.writable? (Text.trim name) with
    | none => exact .skips fun f hf' => by rw [hreach, hf] at hf'; cases hf'
    | some f => exact hreplace (hreach.trans hf) (.inl (by rw [leafIn?, hcut, Option.map_none]))
  | some cut =>
    obtain ⟨root, rest⟩ := cut
    have hreach := reached?_of_cutPath (s := s) hcut
    simp only [planName, hcut]
    cases hf : s.writable? root with
    | none => exact .skips fun f hf' => by rw [hreach, hf] at hf'; cases hf'
    | some f =>
      have hf := hreach.trans hf
      dsimp only
      split
      · rename_i hin
        refine .skips fun f' hf' => ?_
        obtain rfl := Option.some.inj (hf.symm.trans hf')
        exact hin
      · rename_i hnew
        split
        · rename_i hopen
          have hleaf : leafIn? f name = some (leafName f (Text.headSegment rest)) := by
            rw [leafIn?, hcut, Option.map_some]
          rw [Bool.and_eq_true, Bool.not_eq_true'] at hopen
          exact .part hf hleaf hnew hopen
        · rename_i hclosed
          rw [Bool.and_eq_true, Bool.not_eq_true'] at hclosed
          exact hreplace hf (.inr hclosed)

theorem mem_put_self (d : Document) (key : String) (v : Value) :
    (key, v) ∈ Document.put d key v := by
  induction d with
  | nil => exact List.mem_singleton_self _
  | cons p r ih =>
    rw [Document.put]
    split
    · rename_i hk
      exact hk ▸ List.mem_cons_self
    · exact List.mem_cons_of_mem _ ih

theorem mem_put_of_ne {d : Document} {key : String} {v : Value} {p : String × Value} (hp : p ∈ d)
    (hne : p.1 ≠ key) : p ∈ Document.put d key v := by
  induction d with
  | nil => cases hp
  | cons q r ih =>
    rw [Document.put]
    rcases List.mem_cons.mp hp with rfl | hp
    · rw [if_neg hne]
      exact List.mem_cons_self
    · split
      · exact List.mem_cons_of_mem _ hp
      · exact List.mem_cons_of_mem _ (ih hp)

theorem exists_mem_put {d : Document} (key : String) (v : Value) {p : String × Value} (hp : p ∈ d) :
    ∃ q ∈ Document.put d key v, q.1 = p.1 := by
  by_cases hne : p.1 = key
  · exact ⟨_, mem_put_self d key v, hne.symm⟩
  · exact ⟨p, mem_put_of_ne hp hne, rfl⟩

/-- **What is planned so far** for the names: changes lead into named fields, and into each of
them. In a field that is not written as a whole its named parts are written, and nothing else. -/
structure PlanState.Covers (s : Schema) (patch : Document) (names : List String)
    (st : PlanState) : Prop where
  heads : ∀ p ∈ st.changes, ∃ f, s.Names names f ∧ f.name = Text.headSegment p.1
  named : ∀ f, s.Names names f → ∃ p ∈ st.changes, f.name = Text.headSegment p.1
  whole : ∀ r ∈ st.replaced, ∃ p ∈ st.changes, r = p.1
  parts : ∀ f ∈ s.fields, f.name ∉ st.replaced → ∀ p ∈ st.changes,
    f.name = Text.headSegment p.1 → ∃ leaf, s.NamesLeaf names f leaf ∧
      p = (f.name ++ "." ++ leaf, patch.leafOrNull f.name leaf)
  leaves : ∀ f leaf, f.name ∉ st.replaced → s.NamesLeaf names f leaf →
    (f.name ++ "." ++ leaf, patch.leafOrNull f.name leaf) ∈ st.changes

theorem names_append :
    s.Names (names ++ [name]) g ↔ s.Names names g ∨ s.reached? name = some g := by
  simp [Names, or_and_right, exists_or]

theorem namesLeaf_append : s.NamesLeaf (names ++ [name]) g leaf ↔
    s.NamesLeaf names g leaf ∨ s.reached? name = some g ∧ leafIn? g name = some leaf := by
  simp [NamesLeaf, or_and_right, exists_or]

namespace PlanState.Covers

theorem nil : Covers s patch [] ⟨[], []⟩ where
  heads _ hp := absurd hp List.not_mem_nil
  named _ hn := by obtain ⟨_, hn, -⟩ := hn; cases hn
  whole _ hr := absurd hr List.not_mem_nil
  parts _ _ _ _ hp := absurd hp List.not_mem_nil
  leaves _ _ _ hn := by obtain ⟨_, hn, -⟩ := hn; cases hn

theorem skips (hs : s.Lawful) (h : Covers s patch names st)
    (hskip : ∀ f, s.reached? name = some f → f.name ∈ st.replaced) :
    Covers s patch (names ++ [name]) st where
  heads p hp := by
    obtain ⟨f, hf, hhead⟩ := h.heads p hp
    exact ⟨f, names_append.mpr (.inl hf), hhead⟩
  named f hf := by
    rcases names_append.mp hf with hf | hf
    · exact h.named f hf
    · obtain ⟨p, hp, hname⟩ := h.whole _ (hskip f hf)
      refine ⟨p, hp, ?_⟩
      rw [← hname, headSegment_name hs (mem_of_reached? hf).1]
  whole := h.whole
  parts f hf hnew p hp hhead := by
    obtain ⟨leaf, hleaf, heq⟩ := h.parts f hf hnew p hp hhead
    exact ⟨leaf, namesLeaf_append.mpr (.inl hleaf), heq⟩
  leaves f leaf hnew hleaf := by
    rcases namesLeaf_append.mp hleaf with hleaf | ⟨hf, -⟩
    · exact h.leaves f leaf hnew hleaf
    · exact absurd (hskip f hf) hnew

theorem replace (hs : s.Lawful) (h : Covers s patch names st) (hf : s.reached? name = some f)
    (hnew : f.name ∉ st.replaced) :
    Covers s patch (names ++ [name]) (st.replace f.name patch) := by
  have hhead : Text.headSegment f.name = f.name := headSegment_name hs (mem_of_reached? hf).1
  rw [PlanState.replace, if_neg hnew]
  constructor
  · intro p hp
    rcases mem_put hp with rfl | hp
    · exact ⟨f, names_append.mpr (.inr hf), hhead.symm⟩
    · obtain ⟨g, hg, hgp⟩ := h.heads p hp
      exact ⟨g, names_append.mpr (.inl hg), hgp⟩
  · intro g hg
    rcases names_append.mp hg with hg | hg
    · obtain ⟨p, hp, hgp⟩ := h.named g hg
      obtain ⟨q, hq, hqp⟩ := exists_mem_put f.name (patch.valueOrNull f.name) hp
      exact ⟨q, hq, by rw [hqp, hgp]⟩
    · obtain rfl := Option.some.inj (hf.symm.trans hg)
      exact ⟨_, mem_put_self _ _ _, hhead.symm⟩
  · intro r hr
    rcases List.mem_cons.mp hr with rfl | hr
    · exact ⟨_, mem_put_self _ _ _, rfl⟩
    · obtain ⟨p, hp, hrp⟩ := h.whole r hr
      obtain ⟨q, hq, hqp⟩ := exists_mem_put f.name (patch.valueOrNull f.name) hp
      exact ⟨q, hq, by rw [hqp, hrp]⟩
  · intro g hg hout p hp hgp
    rw [List.mem_cons, not_or] at hout
    rcases mem_put hp with rfl | hp
    · exact absurd (hgp.trans hhead) hout.1
    · obtain ⟨leaf, hleaf, heq⟩ := h.parts g hg hout.2 p hp hgp
      exact ⟨leaf, namesLeaf_append.mpr (.inl hleaf), heq⟩
  · intro g leaf hout hleaf
    rw [List.mem_cons, not_or] at hout
    rcases namesLeaf_append.mp hleaf with hleaf | ⟨hg, -⟩
    · refine mem_put_of_ne (h.leaves g leaf hout.2 hleaf) fun heq => hout.1 ?_
      obtain ⟨_, _, hreach, _⟩ := hleaf
      have hroot := Text.headSegment_append_dot (hs.dotless g (mem_of_reached? hreach).1) leaf
      exact hroot.symm.trans ((congrArg Text.headSegment heq).trans hhead)
    · exact absurd (congrArg Field.name (Option.some.inj (hg.symm.trans hf))) hout.1

theorem setLeaf (hs : s.Lawful) (h : Covers s patch names st) (hf : s.reached? name = some f)
    (hleaf : leafIn? f name = some leaf) :
    Covers s patch (names ++ [name]) (st.setLeaf f.name leaf patch) := by
  have hhead : Text.headSegment (f.name ++ "." ++ leaf) = f.name :=
    Text.headSegment_append_dot (hs.dotless f (mem_of_reached? hf).1) leaf
  constructor
  · intro p hp
    rcases mem_put hp with rfl | hp
    · exact ⟨f, names_append.mpr (.inr hf), hhead.symm⟩
    · obtain ⟨g, hg, hgp⟩ := h.heads p hp
      exact ⟨g, names_append.mpr (.inl hg), hgp⟩
  · intro g hg
    rcases names_append.mp hg with hg | hg
    · obtain ⟨p, hp, hgp⟩ := h.named g hg
      obtain ⟨q, hq, hqp⟩ := exists_mem_put (f.name ++ "." ++ leaf) (patch.leafOrNull f.name leaf) hp
      exact ⟨q, hq, by rw [hqp, hgp]⟩
    · obtain rfl := Option.some.inj (hf.symm.trans hg)
      exact ⟨_, mem_put_self _ _ _, hhead.symm⟩
  · intro r hr
    obtain ⟨p, hp, hrp⟩ := h.whole r hr
    obtain ⟨q, hq, hqp⟩ := exists_mem_put (f.name ++ "." ++ leaf) (patch.leafOrNull f.name leaf) hp
    exact ⟨q, hq, by rw [hqp, hrp]⟩
  · intro g hg hout p hp hgp
    rcases mem_put hp with rfl | hp
    · obtain rfl := hs.eq_of_name_eq hg (mem_of_reached? hf).1 (hgp.trans hhead)
      exact ⟨leaf, namesLeaf_append.mpr (.inr ⟨hf, hleaf⟩), rfl⟩
    · obtain ⟨leaf', hleaf', heq⟩ := h.parts g hg hout p hp hgp
      exact ⟨leaf', namesLeaf_append.mpr (.inl hleaf'), heq⟩
  · intro g leaf' hout hleaf'
    rcases namesLeaf_append.mp hleaf' with hold | ⟨hg, hnew⟩
    · have hm := h.leaves g leaf' hout hold
      by_cases heq : g.name ++ "." ++ leaf' = f.name ++ "." ++ leaf
      · obtain ⟨_, _, hreach, _⟩ := hold
        have hname : g.name = f.name := by
          rw [← Text.headSegment_append_dot (hs.dotless g (mem_of_reached? hreach).1) leaf', heq,
            hhead]
        rw [hname, Text.append_dot_inj] at heq
        rw [hname, heq]
        exact mem_put_self _ _ _
      · exact mem_put_of_ne hm heq
    · obtain rfl := Option.some.inj (hf.symm.trans hg)
      obtain rfl := Option.some.inj (hleaf.symm.trans hnew)
      exact mem_put_self _ _ _

theorem planName (hs : s.Lawful) (h : Covers s patch names st) (existing : Option Document)
    (name : String) :
    Covers s patch (names ++ [name]) (s.planName patch existing st name) := by
  have hputs := s.puts_planName patch existing st name
  generalize s.planName patch existing st name = st' at hputs ⊢
  cases hputs with
  | skips hskip => exact h.skips hs hskip
  | whole hf hnew _ => exact h.replace hs hf hnew
  | part hf hleaf _ _ => exact h.setLeaf hs hf hleaf

theorem foldl (hs : s.Lawful) {before : List String} (h : Covers s patch before st)
    (existing : Option Document) (names : List String) :
    Covers s patch (before ++ names) (names.foldl (s.planName patch existing) st) := by
  -- The names that are done move over to `before`, one by one.
  induction names generalizing before st with
  | nil => rwa [List.append_nil]
  | cons name names ih =>
    rw [List.append_cons, List.foldl_cons]
    exact ih (h.planName hs existing name)

end PlanState.Covers

/-! ### The whole plan -/

/-- The changes before fields are added that are computed from changed ones. -/
def named (s : Schema) (properties paths : List String) (patch : Document)
    (existing : Option Document) : PlanState :=
  (s.plannedNames properties paths).foldl (s.planName patch existing) ⟨[], []⟩

theorem covers_named (hs : s.Lawful) (properties paths : List String) (patch : Document)
    (existing : Option Document) :
    (s.named properties paths patch existing).Covers s patch (s.plannedNames properties paths) :=
  PlanState.Covers.nil.foldl hs existing _

theorem mem_replaced_named :
    g.name ∈ (s.named properties paths patch existing).replaced ↔
      g.name ∈ s.replaced properties paths existing := by
  rw [replaced, replaced_foldl [] patch _ rfl]
  rfl

theorem mem_computed (hs : s.Lawful) (hg : g ∈ s.fields) :
    g ∈ (((s.named properties paths patch existing).changes.keys.map Text.headSegment).flatMap
      s.computedFrom) ↔ s.Follows (s.plannedNames properties paths) g := by
  have hcovers := covers_named hs properties paths patch existing
  simp only [List.mem_flatMap, List.mem_map, Document.keys, computedFrom, fieldsInRole,
    List.mem_filter, decide_eq_true_eq]
  constructor
  · rintro ⟨_, ⟨_, ⟨p, hp, rfl⟩, rfl⟩, -, hrole⟩
    obtain ⟨f, hf, hhead⟩ := hcovers.heads p hp
    exact ⟨f, hf, by rw [hrole, hhead]⟩
  · rintro ⟨f, hf, hrole⟩
    obtain ⟨p, hp, hhead⟩ := hcovers.named f hf
    exact ⟨_, ⟨_, ⟨p, hp, rfl⟩, rfl⟩, hg, by rw [hrole, hhead]⟩

theorem plan_eq : s.plan properties paths patch existing =
    (((s.named properties paths patch existing).changes.keys.map Text.headSegment).flatMap
      s.computedFrom).foldl (fun c f => c.put f.name (patch.valueOrNull f.name))
        (s.named properties paths patch existing).changes := rfl

theorem settles_foldl_put (hs : s.Lawful) (hg : g ∈ s.fields) {fs : List Field}
    (hfs : ∀ f ∈ fs, f ∈ s.fields) {changes : Changes}
    (h : Settles changes g.name (patch.valueOrNull g.name) ∨
      SettlesIfNamed changes g.name (patch.valueOrNull g.name) ∧ g ∈ fs) :
    Settles (fs.foldl (fun c f => Document.put c f.name (patch.valueOrNull f.name)) changes) g.name
      (patch.valueOrNull g.name) := by
  induction fs generalizing changes with
  | nil => exact h.resolve_right fun hright => List.not_mem_nil hright.2
  | cons f fs ih =>
    have hf := hfs f List.mem_cons_self
    refine ih (fun x hx => hfs x (List.mem_cons_of_mem f hx)) ?_
    by_cases hname : g.name = f.name
    · refine .inl ?_
      have hput : SettlesIfNamed changes g.name (patch.valueOrNull g.name) :=
        h.elim .inr And.left
      change Settles (Document.put changes f.name (patch.valueOrNull f.name)) _ _
      rw [← hname]
      exact hput.elim settles_put_new Settles.put_self
    · have hhead : g.name ≠ Text.headSegment f.name := by rwa [headSegment_name hs hf]
      rcases h with h | ⟨h, hm⟩
      · exact .inl (h.put (hs.dotless g hg) hhead)
      · refine .inr ⟨h.put (hs.dotless g hg) hhead, (List.mem_cons.mp hm).resolve_left ?_⟩
        rintro rfl
        exact hname rfl

theorem mem_fields_of_computed {sources : List String} (h : f ∈ sources.flatMap s.computedFrom) :
    f ∈ s.fields := by
  obtain ⟨source, -, hf⟩ := List.mem_flatMap.mp h
  exact (List.mem_filter.mp hf).1

/-- **A field that is planned as a whole** is settled, with what the patch holds. -/
theorem settles_of_whole (hs : s.Lawful) (hg : g ∈ s.fields)
    (h : s.PlansWhole properties paths existing g) (patch : Document) :
    Settles (s.plan properties paths patch existing) g.name (patch.valueOrNull g.name) := by
  have hsound := sound_plan hs hg patch existing (s.plannedNames properties paths)
  rw [plan_eq]
  refine settles_foldl_put hs hg (fun _ => mem_fields_of_computed) ?_
  rcases h with h | h
  · exact .inl (hsound.1 (mem_replaced_named.mpr h))
  · refine .inr ⟨?_, (mem_computed hs hg).mpr h⟩
    by_cases hin : g.name ∈ s.replaced properties paths existing
    · exact .inr (hsound.1 (mem_replaced_named.mpr hin))
    · exact .inl (hsound.2 fun hm => hin (mem_replaced_named.mp hm))

theorem mem_plan_iff (hs : s.Lawful) (hg : g ∈ s.fields)
    (h : ¬ s.Follows (s.plannedNames properties paths) g) {p : String × Value}
    (hp : g.name = Text.headSegment p.1) :
    p ∈ s.plan properties paths patch existing ↔
      p ∈ (s.named properties paths patch existing).changes := by
  rw [plan_eq]
  refine List.foldlRecOn (motive := fun c : Changes =>
    p ∈ c ↔ p ∈ (s.named properties paths patch existing).changes) _ _ Iff.rfl fun c hc f hf => ?_
  have hm := mem_fields_of_computed hf
  have hne : p.1 ≠ f.name := by
    intro heq
    rw [heq, headSegment_name hs hm] at hp
    rw [← hs.eq_of_name_eq hg hm hp, mem_computed hs hg] at hf
    exact h hf
  rw [← hc]
  refine ⟨fun hput => (mem_put hput).resolve_left ?_, fun hold => mem_put_of_ne hold hne⟩
  rintro rfl
  exact hne rfl

/-- **A field that is planned as a whole** holds what the patch has there. -/
theorem value?_plan_of_whole (hs : s.Lawful) (hg : g ∈ s.fields)
    (h : s.PlansWhole properties paths existing g) (patch d : Document) :
    (Document.setAll (s.plan properties paths patch existing) d).value? g.name =
      some (patch.valueOrNull g.name) :=
  (settles_of_whole hs hg h patch).value?_setAll (hs.dotless g hg) d

theorem onlyParts_plan (hs : s.Lawful) (hd : s.DotlessLeaves) (hg : g ∈ s.fields)
    (h : ¬ s.PlansWhole properties paths existing g) (patch : Document) :
    Document.OnlyParts (s.plan properties paths patch existing) g.name
      (patch.leafOrNull g.name) := by
  rw [PlansWhole, not_or] at h
  intro p hp hhead
  rw [mem_plan_iff hs hg h.2 hhead] at hp
  obtain ⟨leaf, ⟨name, hname, hreach, hleaf⟩, heq⟩ := (covers_named hs properties paths patch
    existing).parts g hg (fun hin => h.1 (mem_replaced_named.mp hin)) p hp hhead
  exact ⟨leaf, dotless_leafIn? hd hg hleaf, heq⟩

/-- **A field of which parts are named** holds an object. -/
theorem value?_plan_of_parts (hs : s.Lawful) (hd : s.DotlessLeaves) (hg : g ∈ s.fields)
    (h : ¬ s.PlansWhole properties paths existing g)
    (hn : s.Names (s.plannedNames properties paths) g) (patch d : Document) :
    (Document.setAll (s.plan properties paths patch existing) d).value? g.name =
      some (.document ((Document.setAll (s.plan properties paths patch existing) d).objectAt
        g.name)) := by
  refine Document.value?_setAll_of_parts (hs.dotless g hg) (onlyParts_plan hs hd hg h patch) ?_ d
  obtain ⟨p, hp, hhead⟩ := (covers_named hs properties paths patch existing).named g hn
  rw [PlansWhole, not_or] at h
  exact ⟨p, (mem_plan_iff hs hg h.2 hhead).mpr hp, hhead⟩

theorem mem_keys_plan_iff (hs : s.Lawful) (hg : g ∈ s.fields)
    (h : ¬ s.PlansWhole properties paths existing g) (patch : Document) :
    g.name ++ "." ++ leaf ∈ (s.plan properties paths patch existing).map Prod.fst ↔
      s.NamesLeaf (s.plannedNames properties paths) g leaf := by
  have hcovers := covers_named hs properties paths patch existing
  have hhead := Text.headSegment_append_dot (hs.dotless g hg) leaf
  rw [PlansWhole, not_or] at h
  have hnew : g.name ∉ (s.named properties paths patch existing).replaced :=
    fun hin => h.1 (mem_replaced_named.mp hin)
  constructor
  · intro hm
    obtain ⟨p, hp, hkey⟩ := List.mem_map.mp hm
    rw [← hkey] at hhead
    rw [mem_plan_iff hs hg h.2 hhead.symm] at hp
    obtain ⟨leaf', hleaf', rfl⟩ := hcovers.parts g hg hnew p hp hhead.symm
    obtain rfl := Text.append_dot_inj.mp hkey
    exact hleaf'
  · intro hleaf
    have hm := (mem_plan_iff (p := (g.name ++ "." ++ leaf, patch.leafOrNull g.name leaf)) hs hg h.2
      hhead.symm).mpr (hcovers.leaves g leaf hnew hleaf)
    exact List.mem_map_of_mem (f := Prod.fst) hm

/-- **The parts that are named** hold what the patch has there. -/
theorem value?_objectAt_plan (hs : s.Lawful) (hd : s.DotlessLeaves) (hg : g ∈ s.fields)
    (h : ¬ s.PlansWhole properties paths existing g)
    (hleaf : s.NamesLeaf (s.plannedNames properties paths) g leaf) (patch d : Document) :
    ((Document.setAll (s.plan properties paths patch existing) d).objectAt g.name).value? leaf =
      some (patch.leafOrNull g.name leaf) := by
  rw [Document.value?_objectAt_setAll (hs.dotless g hg) (onlyParts_plan hs hd hg h patch),
    if_pos ((mem_keys_plan_iff hs hg h patch).mpr hleaf)]

/-- **The other parts** stay. -/
theorem value?_objectAt_plan_of_not (hs : s.Lawful) (hd : s.DotlessLeaves) (hg : g ∈ s.fields)
    (h : ¬ s.PlansWhole properties paths existing g)
    (hleaf : ¬ s.NamesLeaf (s.plannedNames properties paths) g leaf) (patch d : Document) :
    ((Document.setAll (s.plan properties paths patch existing) d).objectAt g.name).value? leaf =
      (d.objectAt g.name).value? leaf := by
  rw [Document.value?_objectAt_setAll (hs.dotless g hg) (onlyParts_plan hs hd hg h patch),
    if_neg (mt (mem_keys_plan_iff hs hg h patch).mp hleaf)]

/-- A part that is named holds what the patch has there, also when its field is written as a
whole. -/
theorem leafOrNull_plan (hs : s.Lawful) (hd : s.DotlessLeaves) (hg : g ∈ s.fields)
    (hleaf : s.NamesLeaf (s.plannedNames properties paths) g leaf) (patch d : Document) :
    (Document.setAll (s.plan properties paths patch existing) d).leafOrNull g.name leaf =
      patch.leafOrNull g.name leaf := by
  by_cases hwhole : s.PlansWhole properties paths existing g
  · refine Document.leafOrNull_congr ?_
    rw [Document.valueOrNull, value?_plan_of_whole hs hg hwhole, Option.getD_some]
  · rw [Document.leafOrNull_of_value? (value?_plan_of_parts hs hd hg hwhole hleaf.named patch d),
      Document.valueOrNull, value?_objectAt_plan hs hd hg hwhole hleaf, Option.getD_some]

/-! ### Fields as they are named -/

/-- **When a field is planned as a whole**: it is computed from a named field, or it is named and
either the whole of it is or it is no object that could be written in parts. -/
theorem plansWhole_iff (hs : s.Lawful) (hg : g ∈ s.fields) :
    s.PlansWhole properties paths existing g ↔ s.Follows (s.plannedNames properties paths) g ∨
      s.Names (s.plannedNames properties paths) g ∧
        ((g.kind.isCollection || !holdsObject existing g.name) = true ∨
          ¬ s.NamesParts (s.plannedNames properties paths) g) := by
  rw [PlansWhole, or_comm, mem_replaced_iff hs hg]
  simp only [writesWhole_iff]
  refine or_congr_right ⟨?_, ?_⟩
  · rintro ⟨name, hname, hreach, hwhole⟩
    exact ⟨⟨name, hname, hreach⟩,
      hwhole.symm.imp id fun hleaf hparts => hparts.2 name hname hreach hleaf⟩
  · rintro ⟨hnames, hwhole | hparts⟩
    · obtain ⟨name, hname, hreach⟩ := hnames
      exact ⟨name, hname, hreach, .inr hwhole⟩
    · simp only [NamesParts, hnames, true_and, not_forall, not_not] at hparts
      obtain ⟨name, hname, hreach, hleaf⟩ := hparts
      exact ⟨name, hname, hreach, .inl hleaf⟩

/-- **A field that is not named**, nor computed from a named one, stays as it is. -/
theorem value?_plan_of_spared (hs : s.Lawful) (hg : g ∈ s.fields)
    (hn : ¬ s.Names (s.plannedNames properties paths) g)
    (hf : ¬ s.Follows (s.plannedNames properties paths) g) (patch d : Document) :
    (Document.setAll (s.plan properties paths patch existing) d).value? g.name =
      d.value? g.name := by
  refine Document.value?_setAll_of_ne (fun p hp hhead => hn ?_) d
  rw [mem_plan_iff hs hg hf hhead] at hp
  obtain ⟨f, hnames, hf'⟩ := (covers_named hs properties paths patch existing).heads p hp
  rwa [← hs.eq_of_name_eq hnames.mem.1 hg (hf'.trans hhead.symm)]

theorem value?_plan_of_unplanned (hs : s.Lawful) (hg : g ∈ s.fields)
    (hw : ¬ s.PlansWhole properties paths existing g)
    (hn : ¬ s.Names (s.plannedNames properties paths) g) (patch d : Document) :
    (Document.setAll (s.plan properties paths patch existing) d).value? g.name =
      d.value? g.name :=
  value?_plan_of_spared hs hg hn (fun hfollows => hw (.inr hfollows)) patch d

/-- **Names that mean the same** have dots in common. -/
theorem dot_mem_iff_of_nameKey {a b : String} (h : nameKey a = nameKey b) :
    '.' ∈ a.toList ↔ '.' ∈ b.toList := by
  have hkey : ∀ x : String, '.' ∈ nameKey x ↔ '.' ∈ x.toList := by
    intro x
    constructor
    · intro hdot
      obtain ⟨ch, hch, hlower⟩ := List.mem_map.mp hdot
      obtain rfl := Text.eq_dot_of_toLower hlower
      exact (List.mem_filter.mp hch).1
    · intro hdot
      exact List.mem_map.mpr ⟨'.', List.mem_filter.mpr ⟨hdot, by decide⟩, by decide⟩
  rw [← hkey, h, hkey]

theorem dotless_of_field? (hs : s.Lawful) (h : s.field? name = some f) : '.' ∉ name.toList := by
  have hkey : nameKey f.name = nameKey name := by simpa using List.find?_some h
  rw [← dot_mem_iff_of_nameKey hkey]
  exact hs.dotless f (List.mem_of_find?_eq_some h)

/-- **Properties into which paths lead** name no field that the paths do not name. -/
theorem names_planned_iff (hs : s.Lawful) :
    s.Names (s.plannedNames properties paths) g ↔ s.Names (properties ++ paths) g := by
  constructor
  · rintro ⟨name, hname, hreach⟩
    refine ⟨name, ?_, hreach⟩
    rcases List.mem_append.mp hname with h | h
    · exact List.mem_append_right _ h
    · exact List.mem_append_left _ (List.mem_filter.mp h).1
  · rintro ⟨name, hname, hreach⟩
    rcases List.mem_append.mp hname with h | h
    · by_cases hun : name ∈ s.uncovered properties paths
      · exact ⟨name, List.mem_append_right _ hun, hreach⟩
      · have hcover := fun hc => hun (List.mem_filter.mpr ⟨h, hc⟩)
        split at hcover
        · rename_i f hf
          have hroot : f.name ∈ s.pathRoots paths := by simpa using hcover
          obtain ⟨path, hpath, hmap⟩ := List.mem_filterMap.mp hroot
          obtain ⟨f', hf', hname'⟩ := Option.map_eq_some_iff.mp hmap
          obtain rfl := hs.eq_of_name_eq (List.mem_of_find?_eq_some hf')
            (List.mem_of_find?_eq_some hf) hname'
          refine ⟨path, List.mem_append_left _ hpath, ?_⟩
          rw [reached?, Text.headSegment_of_dotless (dotless_of_field? hs hf), writable?, hf]
            at hreach
          rw [reached?, writable?, hf', hreach]
        · exact absurd rfl hcover
    · exact ⟨name, List.mem_append_left _ h, hreach⟩

/-! ### Differences -/

/-- Whether a field is left out of the difference of two versions. -/
def agreesIn (existing proposed : Document) (f : Field) : Bool :=
  (existing.valueOrNull f.name).agrees (proposed.valueOrNull f.name)

theorem diff_foldl (existing proposed : Document) {fs : List Field} {changes : Changes}
    (hnodup : (fs.map Field.name).Nodup) (hnew : ∀ f ∈ fs, changes.value? f.name = none) :
    fs.foldl (fun changes f =>
      let new := Document.valueOrNull proposed f.name
      if (Document.valueOrNull existing f.name).agrees new then changes
      else Document.put changes f.name new) changes =
    changes ++ (fs.filter fun f => !agreesIn existing proposed f).map fun f =>
      (f.name, proposed.valueOrNull f.name) := by
  induction fs generalizing changes with
  | nil => simp
  | cons f fs ih =>
    rw [List.map_cons, List.nodup_cons] at hnodup
    have hrest : ∀ x ∈ fs, changes.value? x.name = none := fun x hx =>
      hnew x (List.mem_cons_of_mem f hx)
    rw [List.foldl_cons]
    cases hagrees : agreesIn existing proposed f with
    | true =>
      rw [agreesIn] at hagrees
      simp only [hagrees, if_true]
      rw [ih hnodup.2 hrest, List.filter_cons, if_neg (by simp [agreesIn, hagrees])]
    | false =>
      rw [agreesIn] at hagrees
      simp only [hagrees, Bool.false_eq_true, if_false]
      rw [put_of_value?_none (hnew f List.mem_cons_self), ih hnodup.2, List.filter_cons,
        if_pos (by simp [agreesIn, hagrees]), List.map_cons, List.append_assoc,
        List.singleton_append]
      intro x hx
      have hne : x.name ≠ f.name := fun he => hnodup.1 (he ▸ List.mem_map_of_mem hx)
      rw [← put_of_value?_none (hnew f List.mem_cons_self), Document.value?_put_of_ne _ _ hne]
      exact hrest x hx

/-- **A difference** holds the fields that do not agree, as they are proposed. -/
theorem diff_eq (hs : s.Lawful) (dependencies : Bool) (existing proposed : Document) :
    s.diff dependencies existing proposed =
      ((s.diffedFields dependencies).filter fun f => !agreesIn existing proposed f).map fun f =>
        (f.name, proposed.valueOrNull f.name) :=
  diff_foldl existing proposed (hs.nodup.sublist (List.filter_sublist.map _)) fun _ _ => rfl

/-- **A field after a difference was written** holds what is proposed, if it takes part and does not
agree with this. Otherwise it is as it was. -/
theorem value?_diff (hs : s.Lawful) (hg : g ∈ s.fields) (dependencies : Bool)
    (existing proposed d : Document) :
    (Document.setAll (s.diff dependencies existing proposed) d).value? g.name =
      if g.role.isDiffed dependencies && !agreesIn existing proposed g then
        some (proposed.valueOrNull g.name) else d.value? g.name := by
  split
  · rename_i h
    rw [Bool.and_eq_true] at h
    have hm : (g.name, proposed.valueOrNull g.name) ∈ s.diff dependencies existing proposed := by
      rw [diff_eq hs]
      exact List.mem_map.mpr ⟨g, List.mem_filter.mpr ⟨List.mem_filter.mpr ⟨hg, h.1⟩, h.2⟩, rfl⟩
    rcases settlesIfNamed_diff hs hg dependencies existing proposed with hnone | hsettles
    · exact absurd rfl (ne_of_value?_none hnone hm)
    · exact hsettles.value?_setAll (hs.dotless g hg) d
  · rename_i h
    refine Document.value?_setAll_of_ne (fun p hp hhead => h ?_) d
    rw [diff_eq hs] at hp
    obtain ⟨f, hf, rfl⟩ := List.mem_map.mp hp
    obtain ⟨hf, hagrees⟩ := List.mem_filter.mp hf
    obtain ⟨hm, hrole⟩ := List.mem_filter.mp hf
    rw [headSegment_name hs hm] at hhead
    rw [hs.eq_of_name_eq hg hm hhead, hrole, hagrees]
    rfl

end Schema

end Registrar
