import Registrar.Proofs.Change.Fields

/-!
# What planned changes do to a field

Changes may hold a field by its name and also paths into it, and they are written one after the
other. What becomes of the field is decided by the last of them. The plan of a delta and the
difference of two versions are made so that a field that is written by its name is written last,
and that its value is the one that was submitted.

* `Settles`: a field is written by its name, with a value, and no later path leads into it.
* `Settles.value?_setAll`: then it has this value.
* `settles_plan`, `settlesIfNamed_diff`: a plan and a difference settle the fields that they name.
* `Schema.replaced`: the fields that a plan writes as a whole, which the patch does not decide.
* `mem_replaced_iff`: these are the fields that are named, or named with a place below them where
  single leaves cannot be written.
-/

namespace Registrar

variable {changes : Changes} {root key : String} {v x : Value}

/-! ### Settled fields -/

/-- **Changes settle a field**: they set it by its name, once, and no later path leads into it. -/
def Settles (changes : Changes) (root : String) (v : Value) : Prop :=
  ∃ before after, changes = before ++ (root, v) :: after ∧ (∀ p ∈ before, p.1 ≠ root) ∧
    ∀ p ∈ after, root ≠ Text.headSegment p.1

/-- Changes settle a field or do not name it. -/
def SettlesIfNamed (changes : Changes) (root : String) (v : Value) : Prop :=
  changes.value? root = none ∨ Settles changes root v

theorem put_of_value?_none (h : Document.value? changes root = none) :
    Document.put changes root v = changes ++ [(root, v)] := by
  induction changes with
  | nil => rfl
  | cons p r ih =>
    obtain ⟨k, y⟩ := p
    rw [Document.value?] at h
    split at h
    · cases h
    · rename_i hk
      rw [Document.put, if_neg hk, ih h, List.cons_append]

theorem ne_of_value?_none (h : Document.value? changes root = none) {p : String × Value}
    (hp : p ∈ changes) : p.1 ≠ root := by
  induction changes with
  | nil => cases hp
  | cons q r ih =>
    obtain ⟨k, y⟩ := q
    rw [Document.value?] at h
    split at h
    · cases h
    · rename_i hk
      rcases List.mem_cons.mp hp with rfl | hp
      · exact hk
      · exact ih h hp

theorem settles_put_new (h : Document.value? changes root = none) :
    Settles (changes.put root v) root v := by
  refine ⟨changes, [], put_of_value?_none h, fun p hp => ne_of_value?_none h hp, by simp⟩

namespace Settles

theorem value? (h : Settles changes root v) : changes.value? root = some v := by
  obtain ⟨before, after, rfl, hbefore, -⟩ := h
  induction before with
  | nil => rw [List.nil_append, Document.value?, if_pos rfl]
  | cons p r ih =>
    rw [List.cons_append, Document.value?, if_neg (hbefore p List.mem_cons_self)]
    exact ih fun q hq => hbefore q (List.mem_cons_of_mem p hq)

theorem put (hroot : '.' ∉ root.toList) (h : Settles changes root v)
    (hk : root ≠ Text.headSegment key) : Settles (changes.put key x) root v := by
  have hne : root ≠ key := fun he => hk (by rw [← he, Text.headSegment_of_dotless hroot])
  obtain ⟨before, after, rfl, hbefore, hafter⟩ := h
  induction before with
  | nil =>
    rw [List.nil_append, Document.put, if_neg hne]
    refine ⟨[], Document.put after key x, rfl, by simp, fun p hp => ?_⟩
    rcases Schema.mem_put hp with rfl | hp
    · exact hk
    · exact hafter p hp
  | cons p r ih =>
    have hp := hbefore p List.mem_cons_self
    have hr : ∀ q ∈ r, q.1 ≠ root := fun q hq => hbefore q (List.mem_cons_of_mem p hq)
    rw [List.cons_append, Document.put]
    by_cases hpk : p.1 = key
    · rw [if_pos hpk]
      refine ⟨(p.1, x) :: r, after, rfl, fun q hq => ?_, hafter⟩
      rcases List.mem_cons.mp hq with rfl | hq
      · exact hp
      · exact hr q hq
    · rw [if_neg hpk]
      obtain ⟨before, after', heq, hbefore', hafter'⟩ := ih hr
      refine ⟨p :: before, after', by rw [heq, List.cons_append], fun q hq => ?_, hafter'⟩
      rcases List.mem_cons.mp hq with rfl | hq
      · exact hp
      · exact hbefore' q hq

theorem put_self (h : Settles changes root v) : Settles (changes.put root x) root x := by
  obtain ⟨before, after, rfl, hbefore, hafter⟩ := h
  refine ⟨before, after, ?_, hbefore, hafter⟩
  clear hafter
  induction before with
  | nil => rw [List.nil_append, Document.put, if_pos rfl, List.nil_append]
  | cons p r ih =>
    rw [List.cons_append, Document.put, if_neg (hbefore p List.mem_cons_self),
      ih fun q hq => hbefore q (List.mem_cons_of_mem p hq), List.cons_append]

/-- **A settled field has the value that was set.** -/
theorem value?_setAll (hroot : '.' ∉ root.toList) (h : Settles changes root v) (d : Document) :
    (Document.setAll changes d).value? root = some v := by
  obtain ⟨before, after, rfl, -, hafter⟩ := h
  exact Document.value?_sets_of_last hroot v hafter d

end Settles

namespace SettlesIfNamed

theorem nil : SettlesIfNamed [] root v := .inl rfl

theorem put (hroot : '.' ∉ root.toList) (h : SettlesIfNamed changes root v)
    (hk : root ≠ Text.headSegment key) : SettlesIfNamed (changes.put key x) root v := by
  rcases h with h | h
  · have hne : root ≠ key := fun he => hk (by rw [← he, Text.headSegment_of_dotless hroot])
    exact .inl (by rw [Document.value?_put_of_ne _ _ hne, h])
  · exact .inr (h.put hroot hk)

theorem put_self (h : SettlesIfNamed changes root v) : SettlesIfNamed (changes.put root x) root x :=
  .inr (h.elim settles_put_new Settles.put_self)

end SettlesIfNamed

/-! ### Plans -/

namespace Schema

variable {s : Schema} {patch : Document} {existing : Option Document} {st : PlanState} {g f : Field}

/-- While changes are planned, a field is settled just if it is written as a whole. -/
def PlanState.Sound (st : PlanState) (root : String) (v : Value) : Prop :=
  (root ∈ st.replaced → Settles st.changes root v) ∧
    (root ∉ st.replaced → st.changes.value? root = none)

theorem headSegment_name (hs : s.Lawful) (hf : f ∈ s.fields) : Text.headSegment f.name = f.name :=
  Text.headSegment_of_dotless (hs.dotless f hf)

theorem sound_replace (hs : s.Lawful) (hg : g ∈ s.fields) (hf : f ∈ s.fields)
    (h : st.Sound g.name (patch.valueOrNull g.name)) :
    (st.replace f.name patch).Sound g.name (patch.valueOrNull g.name) := by
  rw [PlanState.replace]
  split
  · exact h
  · rename_i hnew
    by_cases hne : g.name = f.name
    · refine ⟨fun _ => ?_, fun hout => absurd (hne ▸ List.mem_cons_self) hout⟩
      rw [hne] at h ⊢
      exact settles_put_new (h.2 hnew)
    · have hhead : g.name ≠ Text.headSegment f.name := by rwa [headSegment_name hs hf]
      refine ⟨fun hin => ?_, fun hout => ?_⟩
      · exact (h.1 ((List.mem_cons.mp hin).resolve_left hne)).put (hs.dotless g hg) hhead
      · rw [Document.value?_put_of_ne _ _ hne]
        exact h.2 fun hin => hout (List.mem_cons_of_mem _ hin)

theorem sound_setLeaf (hs : s.Lawful) (hg : g ∈ s.fields) (hf : f ∈ s.fields)
    (hnew : f.name ∉ st.replaced) (leaf : String)
    (h : st.Sound g.name (patch.valueOrNull g.name)) :
    (st.setLeaf f.name leaf patch).Sound g.name (patch.valueOrNull g.name) := by
  have hhead := Text.headSegment_append_dot (hs.dotless f hf) leaf
  refine ⟨fun hin => ?_, fun hout => ?_⟩
  · have hne : g.name ≠ f.name := fun he => hnew (he ▸ hin)
    exact (h.1 hin).put (hs.dotless g hg) (by rwa [hhead])
  · have hne : g.name ≠ f.name ++ "." ++ leaf := by
      intro he
      refine hs.dotless g hg ?_
      rw [he, String.toList_append, String.toList_append]
      exact List.mem_append_left _ (List.mem_append_right _ (by decide))
    exact (Document.value?_put_of_ne _ _ hne).trans (h.2 hout)

theorem sound_planName (hs : s.Lawful) (hg : g ∈ s.fields) (name : String)
    (h : st.Sound g.name (patch.valueOrNull g.name)) :
    (s.planName patch existing st name).Sound g.name (patch.valueOrNull g.name) := by
  rw [planName]
  split
  split
  · exact h
  · rename_i f hf
    obtain ⟨hm, -⟩ := writable?_isWritten hf
    split
    · exact sound_replace hs hg hm h
    · split
      · exact h
      · rename_i hnew
        split
        · exact sound_setLeaf hs hg hm hnew _ h
        · exact sound_replace hs hg hm h

/-- The fields that are written as a whole for the named properties and paths. The patch does not
decide which these are. -/
def replaced (s : Schema) (properties paths : List String) (existing : Option Document) :
    List String :=
  ((paths ++ s.uncovered properties paths).foldl (s.planName [] existing) ⟨[], []⟩).replaced

theorem replaced_planName (patch patch' : Document) {st st' : PlanState}
    (h : st.replaced = st'.replaced) (name : String) :
    (s.planName patch existing st name).replaced =
      (s.planName patch' existing st' name).replaced := by
  have hreplace : ∀ root, (st.replace root patch).replaced = (st'.replace root patch').replaced := by
    intro root
    rw [PlanState.replace, PlanState.replace, h]
    split
    · exact h
    · rfl
  rw [planName, planName, h]
  split
  split
  · exact h
  · split
    · exact hreplace _
    · split
      · exact h
      · split
        · exact h
        · exact hreplace _

theorem replaced_foldl (patch patch' : Document) (names : List String) {st st' : PlanState}
    (h : st.replaced = st'.replaced) :
    (names.foldl (s.planName patch existing) st).replaced =
      (names.foldl (s.planName patch' existing) st').replaced := by
  induction names generalizing st st' with
  | nil => exact h
  | cons name names ih => exact ih (replaced_planName patch patch' h name)

/-- **A name has a field written as a whole**: it names the field, or a place below it where single
leaves cannot be written. -/
def WritesWhole (s : Schema) (existing : Option Document) (g : Field) (name : String) : Prop :=
  match Text.cutPath (Text.trim name) with
  | none => s.writable? (Text.trim name) = some g
  | some (root, _) =>
    s.writable? root = some g ∧ (g.kind.isCollection || !holdsObject existing g.name) = true

theorem mem_replace {name : String} :
    name ∈ (st.replace f.name patch).replaced ↔ name ∈ st.replaced ∨ name = f.name := by
  rw [PlanState.replace]
  split
  · rename_i hin
    exact ⟨.inl, fun h => h.elim id fun he => he ▸ hin⟩
  · rw [List.mem_cons, or_comm]

theorem mem_replaced_planName (hs : s.Lawful) (hg : g ∈ s.fields) (name : String) :
    g.name ∈ (s.planName patch existing st name).replaced ↔
      g.name ∈ st.replaced ∨ s.WritesWhole existing g name := by
  have hsame : ∀ {root f}, s.writable? root = some f → (some f = some g ↔ g.name = f.name) := by
    intro root f hf
    obtain ⟨hm, -⟩ := writable?_isWritten hf
    rw [Option.some.injEq]
    exact ⟨fun he => he ▸ rfl, fun hn => (hs.eq_of_name_eq hg hm hn).symm⟩
  cases hcut : Text.cutPath (Text.trim name) with
  | none =>
    simp only [planName, WritesWhole, hcut]
    cases hf : s.writable? (Text.trim name) with
    | none => simp
    | some f => exact mem_replace.trans (or_congr_right (hsame hf).symm)
  | some cut =>
    obtain ⟨root, rest⟩ := cut
    simp only [planName, WritesWhole, hcut]
    cases hf : s.writable? root with
    | none => simp
    | some f =>
      rw [hsame hf]
      dsimp only
      by_cases hn : g.name = f.name
      · obtain ⟨hm, -⟩ := writable?_isWritten hf
        obtain rfl := hs.eq_of_name_eq hg hm hn
        split
        · rename_i hin
          simp [hin]
        · split
          · rename_i hobj
            rw [Bool.and_eq_true, Bool.not_eq_true'] at hobj
            simp [hobj, PlanState.setLeaf]
          · rename_i hobj
            rw [mem_replace]
            simp only [true_and]
            refine or_congr_right (iff_of_true trivial ?_)
            cases hc : g.kind.isCollection <;> simp_all
      · simp only [hn, false_and, or_false]
        split
        · rfl
        · split
          · rfl
          · rw [mem_replace, or_iff_left hn]

/-- **The fields that a plan writes as a whole** are those that some name has written so. -/
theorem mem_replaced_iff (hs : s.Lawful) (hg : g ∈ s.fields) {properties paths : List String} :
    g.name ∈ s.replaced properties paths existing ↔
      ∃ name ∈ paths ++ s.uncovered properties paths, s.WritesWhole existing g name := by
  have h : ∀ (names : List String) (st : PlanState),
      g.name ∈ (names.foldl (s.planName [] existing) st).replaced ↔
        g.name ∈ st.replaced ∨ ∃ name ∈ names, s.WritesWhole existing g name := by
    intro names
    induction names with
    | nil => simp
    | cons name names ih =>
      intro st
      rw [List.foldl_cons, ih, mem_replaced_planName hs hg, List.exists_mem_cons_iff, or_assoc]
  rw [replaced, h]
  simp

theorem uncovered_nil (s : Schema) (properties : List String) :
    s.uncovered properties [] = properties := by
  rw [uncovered, List.filter_eq_self]
  intro p _
  split
  · simp [pathRoots]
  · rfl

theorem sound_plan (hs : s.Lawful) (hg : g ∈ s.fields) (patch : Document)
    (existing : Option Document) (names : List String) :
    (names.foldl (s.planName patch existing) ⟨[], []⟩).Sound g.name (patch.valueOrNull g.name) := by
  refine List.foldlRecOn (motive := fun st : PlanState => st.Sound g.name
    (patch.valueOrNull g.name)) _ _ ?_ fun st h name _ => sound_planName hs hg name h
  exact ⟨fun h => absurd h List.not_mem_nil, fun _ => rfl⟩

theorem name_ne_of_derived (hs : s.Lawful) (hg : g ∈ s.fields)
    (hr : ∀ source, g.role ≠ .derived source) {changes : Changes}
    (hf : f ∈ (changes.keys.map Text.headSegment).flatMap s.computedFrom) :
    g.name ≠ Text.headSegment f.name := by
  obtain ⟨source, -, hf⟩ := List.mem_flatMap.mp hf
  obtain ⟨hm, hrole⟩ := List.mem_filter.mp hf
  rw [headSegment_name hs hm]
  exact hs.name_ne hg hm (by rw [of_decide_eq_true hrole]; exact hr source)

/-- **A plan settles the fields that it writes as a whole**, with what the patch holds. -/
theorem settles_plan (hs : s.Lawful) (hg : g ∈ s.fields) (hr : ∀ source, g.role ≠ .derived source)
    {properties paths : List String} (h : g.name ∈ s.replaced properties paths existing)
    (patch : Document) :
    Settles (s.plan properties paths patch existing) g.name (patch.valueOrNull g.name) := by
  rw [replaced, replaced_foldl [] patch _ rfl] at h
  refine List.foldlRecOn (motive := fun c : Changes => Settles c g.name (patch.valueOrNull g.name))
    _ _ ((sound_plan hs hg patch existing _).1 h) fun c hc f hf => ?_
  exact hc.put (hs.dotless g hg) (name_ne_of_derived hs hg hr hf)

theorem value?_plan_eq_none (hs : s.Lawful) (hg : g ∈ s.fields)
    (hr : ∀ source, g.role ≠ .derived source) {properties paths : List String}
    (h : g.name ∉ s.replaced properties paths existing) (patch : Document) :
    (s.plan properties paths patch existing).value? g.name = none := by
  rw [replaced, replaced_foldl [] patch _ rfl] at h
  refine List.foldlRecOn (motive := fun c : Changes => c.value? g.name = none)
    _ _ ((sound_plan hs hg patch existing _).2 h) fun c hc f hf => ?_
  have hne := name_ne_of_derived hs hg hr hf
  obtain ⟨source, -, hsource⟩ := List.mem_flatMap.mp hf
  rw [headSegment_name hs (List.mem_filter.mp hsource).1] at hne
  rw [Document.value?_put_of_ne _ _ hne, hc]

theorem settlesIfNamed_plan (hs : s.Lawful) (hg : g ∈ s.fields)
    (hr : ∀ source, g.role ≠ .derived source) (properties paths : List String) (patch : Document)
    (existing : Option Document) :
    SettlesIfNamed (s.plan properties paths patch existing) g.name (patch.valueOrNull g.name) := by
  by_cases h : g.name ∈ s.replaced properties paths existing
  · exact .inr (settles_plan hs hg hr h patch)
  · exact .inl (value?_plan_eq_none hs hg hr h patch)

/-- **A difference settles the fields that differ**, with what is proposed. -/
theorem settlesIfNamed_diff (hs : s.Lawful) (hg : g ∈ s.fields) (dependencies : Bool)
    (existing proposed : Document) :
    SettlesIfNamed (s.diff dependencies existing proposed) g.name
      (proposed.valueOrNull g.name) := by
  refine List.foldlRecOn (motive := fun c : Changes => SettlesIfNamed c g.name
    (proposed.valueOrNull g.name)) _ _ .nil fun c hc f hf => ?_
  dsimp only
  split
  · exact hc
  · have hm := (List.mem_filter.mp hf).1
    by_cases hne : g.name = f.name
    · rw [hne] at hc ⊢
      exact hc.put_self
    · exact hc.put (hs.dotless g hg) (by rwa [headSegment_name hs hm])

theorem value?_diff_dependency (hs : s.Lawful) (hg : g ∈ s.fields) (hr : g.role = .dependency)
    (existing proposed : Document) : (s.diff false existing proposed).value? g.name = none := by
  refine List.foldlRecOn (motive := fun c : Changes => c.value? g.name = none) _ _ rfl
    fun c hc f hf => ?_
  obtain ⟨hm, hrole⟩ := List.mem_filter.mp hf
  have hne : g.name ≠ f.name := by
    refine hs.name_ne hg hm fun heq => ?_
    rw [← heq, hr] at hrole
    exact absurd hrole (by decide)
  dsimp only
  split
  · exact hc
  · rw [Document.value?_put_of_ne _ _ hne, hc]

end Schema

/-! ### Writing changes -/

/-- **What a field holds after changes were written**: a settled field holds its value. A field that
is not named is as it was, or a path has led into it. -/
theorem SettlesIfNamed.value?_setAll (hroot : '.' ∉ root.toList) (h : SettlesIfNamed changes root v)
    (d : Document) :
    (changes.value? root = some v ∧ (Document.setAll changes d).value? root = some v) ∨
      changes.value? root = none ∧
        ((Document.setAll changes d).value? root = d.value? root ∨
          ∃ inner, (Document.setAll changes d).value? root = some (.document inner)) := by
  rcases h with h | h
  · rcases Document.value?_sets_cases d with hsame | ⟨x, hx, -⟩ | hinner
    · exact .inr ⟨h, .inl hsame⟩
    · exact absurd rfl (ne_of_value?_none h hx)
    · exact .inr ⟨h, .inr hinner⟩
  · exact .inl ⟨h.value?, h.value?_setAll hroot d⟩

end Registrar
