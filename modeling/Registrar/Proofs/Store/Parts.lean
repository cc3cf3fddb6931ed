import Registrar.Proofs.Text.Joining

/-!
# Writing parts of an object

A path with one dot names a part of the object in a field. When nothing else is set below a field,
the field holds an object afterwards: the parts that were set have their new values, and the others
are as they were. A field without an object is taken for an empty one.

* `Document.objectAt`, `Document.leafOrNull`: the object in a field, and a part of it.
* `Document.OnlyParts`: values are set below a field only.
* `value?_objectAt_setAll`: what the parts of the object are afterwards.
-/

namespace Registrar

/-! ### Cutting at a dot -/

namespace Text

theorem takeWhile_of_cutDot {cs head rest : List Char} (h : cutDot cs = some (head, rest)) :
    cs.takeWhile (· ≠ '.') = head := by
  induction cs generalizing head with
  | nil => cases h
  | cons c cs ih =>
    rw [cutDot] at h
    split at h
    · rename_i hc
      cases h
      rw [List.takeWhile_cons, if_neg (by simpa using hc)]
    · rename_i hc
      obtain ⟨⟨first, last⟩, hcut, heq⟩ := Option.map_eq_some_iff.mp h
      obtain ⟨rfl, rfl⟩ := Prod.mk.inj heq
      rw [List.takeWhile_cons, if_pos (by simpa using hc), ih hcut]

theorem headSegment_of_cutPath {path head rest : String} (h : cutPath path = some (head, rest)) :
    headSegment path = head := by
  obtain ⟨⟨first, last⟩, hcut, heq⟩ := Option.map_eq_some_iff.mp h
  obtain ⟨rfl, rfl⟩ := Prod.mk.inj heq
  rw [headSegment, takeWhile_of_cutDot hcut]

theorem cutPath_eq_none_iff {path : String} : cutPath path = none ↔ '.' ∉ path.toList := by
  rw [cutPath, Option.map_eq_none_iff, cutDot_none_iff]

theorem dotless_headSegment (path : String) : '.' ∉ (headSegment path).toList := by
  rw [headSegment, String.toList_ofList]
  intro h
  exact absurd (List.all_eq_true.mp List.all_takeWhile _ h) (by decide)

theorem segments_append_dot {root leaf : String} (hroot : '.' ∉ root.toList)
    (hleaf : '.' ∉ leaf.toList) : segments (root ++ "." ++ leaf) = [root, leaf] := by
  rw [segments_join, segments_of_dotless hroot, segments_of_dotless hleaf]
  rfl

theorem eq_dot_of_toLower {c : Char} (h : c.toLower = '.') : c = '.' := by
  delta Char.toLower at h
  split at h
  · rename_i hup
    have hcode := congrArg UInt32.toNat (congrArg Char.val h)
    have hleast := UInt32.le_iff_toNat_le.mp hup.1
    have hmost := UInt32.le_iff_toNat_le.mp hup.2
    rw [UInt32.toNat_add] at hcode
    simp at hcode hleast hmost
    omega
  · exact h

theorem append_dot_inj {root a b : String} : root ++ "." ++ a = root ++ "." ++ b ↔ a = b := by
  constructor
  · intro h
    have := congrArg String.toList h
    simp only [String.toList_append, List.append_assoc, List.append_cancel_left_eq] at this
    exact String.toList_inj.mp this
  · rintro rfl
    rfl

end Text

theorem Value.document?_eq_none {v : Option Value} (h : ∀ inner, v ≠ some (.document inner)) :
    v.bind Value.document? = none := by
  match v with
  | none => rfl
  | some (.document inner) => exact absurd rfl (h inner)
  | some .null | some .undefined | some .minKey | some .maxKey | some (.bool _) | some (.int32 _)
  | some (.int64 _) | some (.double _) | some (.decimal128 _) | some (.string _)
  | some (.symbol _) | some (.code _) | some (.binary _ _) | some (.objectId _)
  | some (.dateTime _) | some (.timestamp _ _) | some (.array _) => rfl

namespace Document

/-- **The object in a field**; the empty one when there is none. -/
def objectAt (d : Document) (root : String) : Document :=
  ((d.value? root).bind Value.document?).getD []

/-- **A part of the object in a field**; null when there is none. -/
def leafOrNull (d : Document) (root leaf : String) : Value :=
  (((d.value? root).bind Value.document?).bind (Document.value? · leaf)).getD .null

/-- **Values are set below a field only**, each at a part of the object in it. -/
def OnlyParts (sets : List (String × Value)) (root : String) (v : String → Value) : Prop :=
  ∀ p ∈ sets, root = Text.headSegment p.1 →
    ∃ leaf, '.' ∉ leaf.toList ∧ p = (root ++ "." ++ leaf, v leaf)

variable {root leaf : String} {sets : List (String × Value)} {v : String → Value}

theorem objectAt_of_value? {d inner : Document} (h : d.value? root = some (.document inner)) :
    d.objectAt root = inner := by
  rw [objectAt, h]
  rfl

theorem leafOrNull_of_value? {d inner : Document} (h : d.value? root = some (.document inner)) :
    d.leafOrNull root leaf = inner.valueOrNull leaf := by
  rw [leafOrNull, h]
  rfl

theorem leafOrNull_congr {d d' : Document} (h : d'.valueOrNull root = d.valueOrNull root) :
    d'.leafOrNull root leaf = d.leafOrNull root leaf := by
  have hobject : ∀ x : Document, (x.value? root).bind Value.document? =
      (x.valueOrNull root).document? := by
    intro x
    rw [valueOrNull]
    cases x.value? root <;> rfl
  rw [leafOrNull, leafOrNull, hobject, hobject, h]

theorem value?_writePath_leaf (hroot : '.' ∉ root.toList) (hleaf : '.' ∉ leaf.toList) (x : Value)
    (d : Document) :
    (d.writePath (root ++ "." ++ leaf) x).value? root =
      some (.document ((d.objectAt root).put leaf x)) := by
  have hone : ∀ inner : Document, writeAt [leaf] x inner = inner.put leaf x := fun _ => rfl
  rw [writePath, Text.segments_append_dot hroot hleaf, writeAt.eq_3 _ _ _ _ (by simp),
    value?_put_self, hone, objectAt]
  congr 3
  cases d.value? root with
  | none => rfl
  | some y => cases y <;> rfl

theorem OnlyParts.tail {p : String × Value} (h : OnlyParts (p :: sets) root v) :
    OnlyParts sets root v :=
  fun q hq => h q (List.mem_cons_of_mem p hq)

/-- **The parts that were set have their new values**, and the others are as they were. -/
theorem value?_objectAt_setAll (hroot : '.' ∉ root.toList) (h : OnlyParts sets root v)
    (d : Document)
    (key : String) :
    ((setAll sets d).objectAt root).value? key =
      if root ++ "." ++ key ∈ sets.map Prod.fst then some (v key)
      else (d.objectAt root).value? key := by
  induction sets generalizing d with
  | nil => simp [setAll]
  | cons p r ih =>
    obtain ⟨path, x⟩ := p
    rw [setAll_cons, ih h.tail]
    by_cases hhead : root = Text.headSegment path
    · obtain ⟨leaf, hleaf, heq⟩ := h _ List.mem_cons_self hhead
      obtain ⟨rfl, rfl⟩ := Prod.mk.inj heq
      rw [objectAt_of_value? (value?_writePath_leaf hroot hleaf _ d)]
      by_cases hkey : key = leaf
      · subst hkey
        simp
      · have hne : root ++ "." ++ key ≠ root ++ "." ++ leaf :=
          fun he => hkey (Text.append_dot_inj.mp he)
        simp only [value?_put_of_ne _ _ hkey, List.map_cons, List.mem_cons, hne, false_or]
    · have hsame : (d.writePath path x).objectAt root = d.objectAt root := by
        rw [objectAt, value?_writePath_of_ne d x hhead, objectAt]
      have hne : root ++ "." ++ key ≠ path := by
        rintro rfl
        exact hhead (Text.headSegment_append_dot hroot key).symm
      simp only [hsame, List.map_cons, List.mem_cons, hne, false_or]

theorem value?_setAll_of_parts (hroot : '.' ∉ root.toList) (h : OnlyParts sets root v)
    (hsome : ∃ p ∈ sets, root = Text.headSegment p.1) (d : Document) :
    (setAll sets d).value? root = some (.document ((setAll sets d).objectAt root)) := by
  induction sets generalizing d with
  | nil => simp at hsome
  | cons p r ih =>
    obtain ⟨path, x⟩ := p
    rw [setAll_cons]
    by_cases hrest : ∃ q ∈ r, root = Text.headSegment q.1
    · exact ih h.tail hrest _
    · have hhead : root = Text.headSegment path := by
        obtain ⟨q, hq, hhead⟩ := hsome
        rcases List.mem_cons.mp hq with rfl | hq
        · exact hhead
        · exact absurd ⟨q, hq, hhead⟩ hrest
      obtain ⟨leaf, hleaf, heq⟩ := h _ List.mem_cons_self hhead
      obtain ⟨rfl, rfl⟩ := Prod.mk.inj heq
      have hkeep : (setAll r (d.writePath (root ++ "." ++ leaf) (v leaf))).value? root =
          (d.writePath (root ++ "." ++ leaf) (v leaf)).value? root :=
        value?_setAll_of_ne (fun q hq he => hrest ⟨q, hq, he⟩) _
      have hinner := hkeep.trans (value?_writePath_leaf hroot hleaf _ d)
      rw [hinner, objectAt_of_value? hinner]

end Document

end Registrar
