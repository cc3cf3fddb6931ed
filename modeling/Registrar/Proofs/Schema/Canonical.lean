import Registrar.Directory.Contact
import Registrar.Proofs.Change.Paths
import Registrar.Proofs.Text.Joining
import Registrar.Schema.Path

/-!
# Canonical paths

Resolving a path replaces the names in it that are declared, and leaves the free ones as they are.
So what a path is resolved to is a spelling of the path that keeps the free names, and a path and
its respellings go the same way through the schema. A canonical path is hence resolved to itself.
For this the schema need not tell its fields apart, nor need their names be without dots: names lead
to the first field that they fit, and a name with a dot fits none. But a nameless part would leave
an empty segment behind, which is no path.

* `Schema.Respelled`: paths that differ in the spelling of declared names only.
* `respelled_canonical`: a path is respelled when it is resolved.
* `resolve?_congr`: respelled paths are resolved alike.
* `resolve_canonical`: canonical paths are resolved to themselves.
-/

namespace Registrar

/-! ### Named parts -/

namespace Field

mutual

/-- **Every part has a name**, at any depth below the field. -/
def partsNamed : Field → Bool
  | mk _ _ _ children => allNamed children

def allNamed : List Field → Bool
  | [] => true
  | c :: r => c.name != "" && partsNamed c && allNamed r

end

variable {f c : Field} {name : String}

theorem mem_of_allNamed {cs : List Field} (h : allNamed cs = true) (hc : c ∈ cs) :
    c.name ≠ "" ∧ c.partsNamed = true := by
  induction cs with
  | nil => cases hc
  | cons d cs ih =>
    rw [allNamed, Bool.and_eq_true, Bool.and_eq_true, bne_iff_ne] at h
    rcases List.mem_cons.mp hc with rfl | hc
    · exact h.1
    · exact ih h.2 hc

theorem named_of_child? (h : f.partsNamed = true) (hc : f.child? name = some c) :
    c.name ≠ "" ∧ c.partsNamed = true := by
  obtain ⟨n, k, r, children⟩ := f
  exact mem_of_allNamed h (List.mem_of_find?_eq_some hc)

theorem child?_congr {a b : String} (h : nameKey a = nameKey b) (f : Field) :
    f.child? a = f.child? b := by
  rw [child?, child?, fieldAmong?, fieldAmong?, h]

theorem nameKey_of_child? (h : f.child? name = some c) : nameKey c.name = nameKey name := by
  simpa using List.find?_some h

theorem child?_of_isEmpty (h : f.children.isEmpty = true) (name : String) :
    f.child? name = none := by
  rw [child?, List.isEmpty_iff.mp h]
  rfl

end Field

namespace Schema

/-! ### Respelled paths -/

/-- **The rest of a path is respelled** below a field. While there are declared names to be met, the
segments have to be spellings of one name, and the empty text spells none; below a field without
parts they are free and have to be equal. -/
def RespelledBelow : Field → List String → List String → Prop
  | _, [], [] => True
  | f, a :: as, b :: bs =>
    if f.children.isEmpty then a :: as = b :: bs
    else nameKey a = nameKey b ∧ (a = "" ↔ b = "") ∧
      ∀ c ∈ f.child? a, RespelledBelow c as bs
  | _, _, _ => False

/-- **A path is respelled**: it differs in the underscores and in the case of the names only that
are looked up among declared ones. -/
def Respelled (s : Schema) (path other : String) : Prop :=
  ∃ a as b bs, Text.segments path = a :: as ∧ Text.segments other = b :: bs ∧
    nameKey a = nameKey b ∧ ∀ root ∈ s.field? a, RespelledBelow root as bs

variable {s : Schema} {f : Field} {as bs : List String} {w w' : PathWalk} {segment : String}

theorem respelledBelow_of_isEmpty (h : f.children.isEmpty = true) :
    RespelledBelow f as bs ↔ as = bs := by
  match as, bs with
  | [], [] => simp [RespelledBelow]
  | [], _ :: _ => simp [RespelledBelow]
  | _ :: _, [] => simp [RespelledBelow]
  | a :: as, b :: bs => rw [RespelledBelow, if_pos h]

/-- **One segment further**: it is not empty, and it is a declared name or free. -/
theorem PathWalk.step?_cases (h : w.step? segment = some w') : segment ≠ "" ∧
    ((∃ c, w.leaf.child? segment = some c ∧ w' = ⟨c, c.kind, w.passed ++ [c.name]⟩) ∨
      w.leaf.children.isEmpty = true ∧ w' = ⟨w.leaf, .string, w.passed ++ [segment]⟩) := by
  rw [PathWalk.step?] at h
  split at h
  · cases h
  · rename_i hne
    refine ⟨fun he => hne (by rw [he]; rfl), ?_⟩
    split at h
    · rename_i c hc
      exact .inl ⟨c, hc, (Option.some.inj h).symm⟩
    · split at h
      · rename_i hfree
        exact .inr ⟨hfree, (Option.some.inj h).symm⟩
      · cases h

theorem PathWalk.step?_congr {a b : String} (hkey : nameKey a = nameKey b) (hempty : a = "" ↔ b = "")
    (hparts : w.leaf.children.isEmpty = false) : w.step? a = w.step? b := by
  have hblank : a.isEmpty = b.isEmpty := by
    rw [Bool.eq_iff_iff, String.isEmpty_iff, String.isEmpty_iff]
    exact hempty
  rw [PathWalk.step?, PathWalk.step?, hblank, Field.child?_congr hkey, hparts]
  cases w.leaf.child? b <;> rfl

/-- **A walk along respelled segments** ends at the same place. -/
theorem foldlM_step?_congr (h : RespelledBelow w.leaf as bs) :
    as.foldlM PathWalk.step? w = bs.foldlM PathWalk.step? w := by
  induction as generalizing bs w with
  | nil =>
    cases bs with
    | nil => rfl
    | cons b bs => exact absurd h (by simp [RespelledBelow])
  | cons a as ih =>
    by_cases hfree : w.leaf.children.isEmpty = true
    · rw [(respelledBelow_of_isEmpty hfree).mp h]
    · cases bs with
      | nil => exact absurd h (by simp [RespelledBelow])
      | cons b bs =>
        rw [RespelledBelow, if_neg hfree] at h
        obtain ⟨hkey, hempty, hrest⟩ := h
        have hstep := PathWalk.step?_congr (w := w) hkey hempty (by simpa using hfree)
        rw [List.foldlM_cons, List.foldlM_cons, ← hstep]
        cases hw : w.step? a with
        | none => rfl
        | some w' =>
          obtain ⟨-, ⟨c, hc, rfl⟩ | ⟨hempty, -⟩⟩ := PathWalk.step?_cases hw
          · exact ih (hrest c hc)
          · exact absurd hempty hfree

/-- **Respelled paths are resolved alike**, or neither is. -/
theorem resolve?_congr {path other : String} (h : s.Respelled path other) :
    s.resolve? path = s.resolve? other := by
  obtain ⟨a, as, b, bs, hpath, hother, hkey, hrest⟩ := h
  have hfield : s.field? a = s.field? b := by
    rw [field?, field?, fieldAmong?, fieldAmong?, hkey]
  rw [resolve?, resolve?, hpath, hother]
  dsimp only
  rw [← hfield]
  cases hroot : s.field? a with
  | none => rfl
  | some root =>
    have hwalk := foldlM_step?_congr (w := ⟨root, root.kind, []⟩) (hrest root hroot)
    simp only [Option.bind_eq_bind, Option.bind_some, hwalk]

/-! ### Canonical paths -/

/-- **A walk respells the segments** that it passes, and leaves no dot in them. -/
theorem respelled_passed (hnamed : w.leaf.partsNamed = true)
    (hdotless : ∀ a ∈ as, '.' ∉ a.toList) (h : as.foldlM PathWalk.step? w = some w') :
    ∃ names, w'.passed = w.passed ++ names ∧ RespelledBelow w.leaf as names ∧
      ∀ name ∈ names, '.' ∉ name.toList := by
  induction as generalizing w with
  | nil =>
    cases h
    exact ⟨[], (List.append_nil _).symm, trivial, by simp⟩
  | cons a as ih =>
    rw [List.foldlM_cons, Option.bind_eq_bind, Option.bind_eq_some_iff] at h
    obtain ⟨next, hstep, hrest⟩ := h
    rw [List.forall_mem_cons] at hdotless
    obtain ⟨hne, ⟨c, hc, rfl⟩ | ⟨hfree, rfl⟩⟩ := PathWalk.step?_cases hstep
    · -- A declared name is passed in the spelling of its declaration.
      obtain ⟨hname, hparts⟩ := Field.named_of_child? hnamed hc
      obtain ⟨names, hpassed, hbelow, hnames⟩ := ih hparts hdotless.2 hrest
      refine ⟨c.name :: names, by rw [hpassed]; simp, ?_, ?_⟩
      · have hsome : ¬ w.leaf.children.isEmpty = true := by
          intro hempty
          rw [Field.child?_of_isEmpty hempty] at hc
          cases hc
        rw [RespelledBelow, if_neg hsome]
        refine ⟨(Field.nameKey_of_child? hc).symm, by simp [hne, hname], ?_⟩
        intro d hd
        obtain rfl : c = d := Option.some.inj (hc.symm.trans hd)
        exact hbelow
      · rw [List.forall_mem_cons]
        exact ⟨dotless_of_fieldAmong? hc hdotless.1, hnames⟩
    · obtain ⟨names, hpassed, hbelow, hnames⟩ :=
        ih (w := ⟨w.leaf, .string, w.passed ++ [a]⟩) hnamed hdotless.2 hrest
      refine ⟨a :: names, by rw [hpassed]; simp, ?_, ?_⟩
      · rw [respelledBelow_of_isEmpty hfree]
        rw [(respelledBelow_of_isEmpty hfree).mp hbelow]
      · rw [List.forall_mem_cons]
        exact ⟨hdotless.1, hnames⟩

/-- **The canonical path is a respelling** of the path. -/
theorem respelled_canonical {path : String} {c : CanonicalPath}
    (hnamed : ∀ f ∈ s.fields, f.partsNamed = true) (h : s.resolve? path = some c) :
    s.Respelled path c.path := by
  obtain ⟨rest, hsegments⟩ := Text.segments_eq_cons path
  generalize Text.headSegment path = first at hsegments
  have hdotless : ∀ a ∈ first :: rest, '.' ∉ a.toList := by
    intro a ha
    rw [← hsegments] at ha
    exact Text.dotless_of_mem_segments ha
  rw [List.forall_mem_cons] at hdotless
  rw [resolve?, hsegments] at h
  simp only [Option.bind_eq_bind, Option.bind_eq_some_iff, Option.pure_def,
    Option.some.injEq] at h
  obtain ⟨root, hroot, walk, hwalk, rfl⟩ := h
  obtain ⟨names, hpassed, hbelow, hnames⟩ :=
    respelled_passed (hnamed root (List.mem_of_find?_eq_some hroot)) hdotless.2 hwalk
  have hcanonical : Text.segments (".".intercalate (root.name :: walk.passed)) =
      root.name :: names := by
    rw [hpassed, List.nil_append]
    refine Text.segments_intercalate (List.cons_ne_nil _ _) ?_
    rw [List.forall_mem_cons]
    exact ⟨dotless_of_fieldAmong? hroot hdotless.1, hnames⟩
  have hkey : nameKey root.name = nameKey first := by simpa using List.find?_some hroot
  refine ⟨first, rest, root.name, names, hsegments, hcanonical, hkey.symm, ?_⟩
  intro found hfound
  obtain rfl : root = found := Option.some.inj (hroot.symm.trans hfound)
  exact hbelow

/-- **Paths have one canonical spelling**, if no part in the schema is nameless. What a path is
resolved to is a respelling of it and is resolved to itself, with the same root and kind; and
respelled paths are resolved alike, or neither is. -/
theorem resolve_canonical (s : Schema) (hnamed : ∀ f ∈ s.fields, f.partsNamed = true) :
    (∀ path c, s.resolve? path = some c →
      s.Respelled path c.path ∧ s.resolve? c.path = some c) ∧
    ∀ path other, s.Respelled path other → s.resolve? path = s.resolve? other := by
  refine ⟨?_, fun path other h => resolve?_congr h⟩
  intro path c h
  have hrespelled := respelled_canonical hnamed h
  exact ⟨hrespelled, (resolve?_congr hrespelled).symm.trans h⟩

end Schema

namespace Directory

/-- **Two spellings of the kind of a number**, and one of a free attribute whose own case counts. -/
theorem spellings_canonical :
    ((∀ f ∈ Contact.kind.schema.fields, f.partsNamed = true) ∧
      Contact.kind.schema.Respelled "Numbers.KI_ND" "_numbers.kind") ∧
    Contact.kind.schema.resolve? "Numbers.KI_ND" = Contact.kind.schema.resolve? "_numbers.kind" ∧
    ∃ c, Contact.kind.schema.resolve? "AT_TRIBUTES.Floor.N_o" = some c ∧
      c.path = "attributes.Floor.N_o" ∧ Contact.kind.schema.resolve? c.path = some c := by
  have hnamed : ∀ f ∈ Contact.kind.schema.fields, f.partsNamed = true := by decide
  have hrespelled : Contact.kind.schema.Respelled "Numbers.KI_ND" "_numbers.kind" := by
    refine ⟨"Numbers", ["KI_ND"], "_numbers", ["kind"], by decide +kernel, by decide +kernel,
      by decide +kernel, ?_⟩
    intro root hroot
    obtain rfl := Option.some.inj hroot
    refine ⟨by decide +kernel, by decide, ?_⟩
    intro c hc
    obtain rfl := Option.some.inj hc
    trivial
  obtain ⟨hself, halike⟩ := Schema.resolve_canonical Contact.kind.schema hnamed
  obtain ⟨c, hc, hpath⟩ : ∃ c, Contact.kind.schema.resolve? "AT_TRIBUTES.Floor.N_o" = some c ∧
      c.path = "attributes.Floor.N_o" := ⟨_, rfl, by decide +kernel⟩
  exact ⟨⟨hnamed, hrespelled⟩, halike _ _ hrespelled, c, hc, hpath, (hself _ c hc).2⟩

end Directory

end Registrar
