import Registrar.Outcome
import Registrar.Proofs.Store.Lens
import Registrar.Proofs.Text.Joining

/-!
# Updates without an order

Writing at a path needs an object in every field on the way. It is made where there is none, so the
write is never refused. What is written is read back, and what is apart from the path is not
noticed. When the paths of an update are apart from each other, all of its entries are therefore
found afterwards, whatever their order; only the order of fields that are new depends on it, in the
document or in an object that was made on the way.

* `Document.setPath`: the write that would be refused without an object.
* `apart_iff`: which paths are apart, by their texts.
* `Unordered`: equality up to the order of fields.
* `Update.apply_eq_setAll`: counters are values that are set, when they are apart.
* `unordered_setAll_of_perm`: entries that are apart may be set in any order.
* `updates_unordered`: the laws of one write, and of an update.
-/

namespace Registrar

/-! ### Paths that are apart -/

/-- **Paths are apart** if they are different and neither goes on behind the other. -/
theorem apart_iff {p q : String} : Apart p q ↔
    q ≠ p ∧ (∀ rest, q ≠ p ++ "." ++ rest) ∧ ∀ rest, p ≠ q ++ "." ++ rest := by
  simp only [Apart, Text.segments_prefix_iff, not_or, not_exists]
  constructor
  · rintro ⟨⟨hne, hbehind⟩, -, hbefore⟩
    exact ⟨hne, hbehind, hbefore⟩
  · rintro ⟨hne, hbehind, hbefore⟩
    exact ⟨⟨hne, hbehind⟩, hne.symm, hbefore⟩

theorem Apart.symm {p q : String} (h : Apart p q) : Apart q p := ⟨h.2, h.1⟩

namespace Document

variable {d e : Document} {k : String}

/-! ### Writes are not refused -/

theorem put_put (d : Document) (k : String) (v w : Value) : (d.put k v).put k w = d.put k w := by
  induction d with
  | nil => simp [put]
  | cons f r ih =>
    by_cases h : f.1 = k
    · simp [put, h]
    · simp [put, h, ih]

/-- The document with an object in the field, an empty one where there is none. -/
def withObject (d : Document) (k : String) : Document :=
  match d.value? k with
  | some (.document _) => d
  | _ => d.put k (.document [])

/-- **Writes at the end of a way**, making objects on it. The write is refused where a field holds
no object although one was put there. -/
def setAt : List String → Value → Document → Except StoreError Document
  | [], _, d => .ok d
  | [k], v, d => .ok (d.put k v)
  | k :: r, v, d =>
    match (d.withObject k).value? k with
    | some (.document inner) => do
      return (d.withObject k).put k (.document (← setAt r v inner))
    | _ => .error (.write ("cannot set '" ++ ".".intercalate (k :: r) ++ "'"))

/-- **Writes at a dotted path**, unless it is refused. -/
def setPath (d : Document) (path : String) (v : Value) : Except StoreError Document :=
  setAt (Text.segments path) v d

theorem withObject_of_value? {inner : Document} (h : d.value? k = some (.document inner)) :
    d.withObject k = d := by
  rw [withObject, h]

theorem withObject_of_ne (h : ∀ inner, d.value? k ≠ some (.document inner)) :
    d.withObject k = d.put k (.document []) := by
  rw [withObject]
  split
  · rename_i inner hinner
    exact absurd hinner (h inner)
  · rfl

theorem objectAt_of_ne (h : ∀ inner, d.value? k ≠ some (.document inner)) : d.objectAt k = [] := by
  rw [objectAt, Value.document?_eq_none h]
  rfl

theorem value?_withObject (d : Document) (k : String) :
    (d.withObject k).value? k = some (.document (d.objectAt k)) := by
  by_cases h : ∃ inner, d.value? k = some (.document inner)
  · obtain ⟨inner, hinner⟩ := h
    rw [withObject_of_value? hinner, objectAt_of_value? hinner, hinner]
  · rw [not_exists] at h
    rw [withObject_of_ne h, objectAt_of_ne h, value?_put_self]

theorem put_withObject (d : Document) (k : String) (v : Value) :
    (d.withObject k).put k v = d.put k v := by
  by_cases h : ∃ inner, d.value? k = some (.document inner)
  · obtain ⟨inner, hinner⟩ := h
    rw [withObject_of_value? hinner]
  · rw [not_exists] at h
    rw [withObject_of_ne h, put_put]

theorem setAt_eq (p : List String) (v : Value) (d : Document) :
    setAt p v d = .ok (writeAt p v d) := by
  induction p generalizing d with
  | nil => rfl
  | cons k r ih =>
    cases r with
    | nil => rfl
    | cons l r =>
      rw [setAt.eq_3 _ _ _ _ (by simp), value?_withObject]
      simp only [ih, put_withObject, writeAt_cons_cons]
      rfl

/-- **A write is never refused.** -/
theorem setPath_eq (d : Document) (path : String) (v : Value) :
    d.setPath path v = .ok (d.writePath path v) :=
  setAt_eq _ v d

end Document

/-! ### Equality up to the order of fields -/

/-- **Two fields hold the same** up to the order of fields: nothing, the same value, or two objects
all of whose fields hold the same in this sense. -/
inductive HoldSame : Option Value → Option Value → Prop
  | same (v : Option Value) : HoldSame v v
  | document {d e : Document} (fields : ∀ k, HoldSame (d.value? k) (e.value? k)) :
      HoldSame (some (.document d)) (some (.document e))

/-- **Documents that are equal without an order**: every field holds the same in both. -/
def Unordered (d e : Document) : Prop := ∀ k, HoldSame (d.value? k) (e.value? k)

theorem HoldSame.trans {a b c : Option Value} (hab : HoldSame a b) (hbc : HoldSame b c) :
    HoldSame a c := by
  induction hab generalizing c with
  | same => exact hbc
  | document fields ih =>
    cases hbc with
    | same => exact .document fields
    | document fields' => exact .document fun k => ih k (fields' k)

namespace Unordered

variable {d e f : Document}

theorem refl (d : Document) : Unordered d d := fun _ => .same _

theorem trans (hde : Unordered d e) (hef : Unordered e f) : Unordered d f :=
  fun k => (hde k).trans (hef k)

theorem objectAt (h : Unordered d e) (k : String) : Unordered (d.objectAt k) (e.objectAt k) := by
  have hk := h k
  rw [Document.objectAt, Document.objectAt]
  generalize d.value? k = a at hk
  generalize e.value? k = b at hk
  cases hk with
  | same => exact refl _
  | document fields => exact fields

theorem put (h : Unordered d e) (k : String) {v w : Value} (hvw : HoldSame (some v) (some w)) :
    Unordered (d.put k v) (e.put k w) := by
  intro l
  by_cases hl : l = k
  · subst hl
    rw [Document.value?_put_self, Document.value?_put_self]
    exact hvw
  · rw [Document.value?_put_of_ne _ _ hl, Document.value?_put_of_ne _ _ hl]
    exact h l

theorem writeAt (h : Unordered d e) (p : List String) (v : Value) :
    Unordered (Document.writeAt p v d) (Document.writeAt p v e) := by
  induction p generalizing d e with
  | nil => exact h
  | cons k r ih =>
    cases r with
    | nil => exact h.put k (.same _)
    | cons l r =>
      rw [Document.writeAt_cons_cons, Document.writeAt_cons_cons]
      exact h.put k (.document (ih (h.objectAt k)))

theorem setAll (h : Unordered d e) (sets : List (String × Value)) :
    Unordered (Document.setAll sets d) (Document.setAll sets e) := by
  induction sets generalizing d e with
  | nil => exact h
  | cons s r ih => exact ih (h.writeAt _ s.2)

end Unordered

namespace Document

variable {d : Document} {k : String} {p q r : List String} {v w : Value}

/-! ### Two writes -/

theorem value?_writeAt_congr {d d' : Document} (h : d.value? k = d'.value? k) (r : List String)
    (v : Value) : (writeAt (k :: r) v d).value? k = (writeAt (k :: r) v d').value? k := by
  cases r with
  | nil =>
    change (d.put k v).value? k = (d'.put k v).value? k
    rw [value?_put_self, value?_put_self]
  | cons l r =>
    have hobject : d.objectAt k = d'.objectAt k := by rw [objectAt, objectAt, h]
    rw [writeAt_cons_cons, writeAt_cons_cons, value?_put_self, value?_put_self, hobject]

/-- **Writes that are apart may be exchanged.** -/
theorem unordered_writeAt_writeAt (hpq : ¬ p <+: q) (hqp : ¬ q <+: p) (v w : Value) (d : Document) :
    Unordered (writeAt p v (writeAt q w d)) (writeAt q w (writeAt p v d)) := by
  induction p generalizing q d with
  | nil => exact absurd List.nil_prefix hpq
  | cons k r ih =>
    cases q with
    | nil => exact absurd List.nil_prefix hqp
    | cons m s =>
      by_cases hkm : k = m
      · -- Both lead through one field, and the rests are apart in the object there.
        subst hkm
        rw [List.cons_prefix_cons, and_iff_right rfl] at hpq hqp
        cases r with
        | nil => exact absurd List.nil_prefix hpq
        | cons l r =>
          cases s with
          | nil => exact absurd List.nil_prefix hqp
          | cons n s =>
            simp only [writeAt_cons_cons, objectAt_put_self, put_put]
            exact (Unordered.refl d).put k (.document (ih hpq hqp _))
      · -- They lead through different fields, and each finds its own as it was.
        intro l
        have hleft : (writeAt (m :: s) w d).value? k = d.value? k := value?_writeAt_of_ne hkm s w d
        have hright : (writeAt (k :: r) v d).value? m = d.value? m :=
          value?_writeAt_of_ne (Ne.symm hkm) r v d
        by_cases hk : l = k
        · subst hk
          rw [value?_writeAt_congr hleft, value?_writeAt_of_ne hkm]
          exact .same _
        · rw [value?_writeAt_of_ne hk]
          by_cases hm : l = m
          · subst hm
            rw [value?_writeAt_congr hright]
            exact .same _
          · rw [value?_writeAt_of_ne hm, value?_writeAt_of_ne hm, value?_writeAt_of_ne hk]
            exact .same _

/-! ### Many writes -/

/-- **Entries that are apart may be set in any order.** -/
theorem unordered_setAll_of_perm {sets sets' : List (String × Value)} (h : sets.Perm sets')
    (hapart : (sets.map Prod.fst).Pairwise Apart) (d : Document) :
    Unordered (setAll sets d) (setAll sets' d) := by
  induction h generalizing d with
  | nil => exact .refl d
  | cons s _ ih => exact ih (List.pairwise_cons.mp hapart).2 _
  | swap s t r =>
    have hst : Apart t.1 s.1 := (List.pairwise_cons.mp hapart).1 _ List.mem_cons_self
    exact (unordered_writeAt_writeAt hst.2 hst.1 s.2 t.2 d).setAll r
  | trans hst _ ihst ihtu =>
    have hperm := hst.map Prod.fst
    exact (ihst hapart d).trans
      (ihtu ((hperm.pairwise_iff fun h => Apart.symm h).mp hapart) d)

/-- **Every entry is found**, if they are apart. -/
theorem readPath?_setAll_of_mem {sets : List (String × Value)}
    (hapart : (sets.map Prod.fst).Pairwise Apart) {s : String × Value} (hs : s ∈ sets)
    (d : Document) : (setAll sets d).readPath? s.1 = some s.2 := by
  induction sets generalizing d with
  | nil => cases hs
  | cons t r ih =>
    rw [List.map_cons, List.pairwise_cons] at hapart
    rcases List.mem_cons.mp hs with rfl | hs
    · have hothers : ∀ t ∈ r, Apart t.1 s.1 := fun t ht =>
        (hapart.1 t.1 (List.mem_map_of_mem ht)).symm
      rw [setAll_cons, readPath?_setAll_of_apart hothers, readPath?_writePath_self]
    · exact ih hapart.2 hs _

end Document

/-! ### Updates -/

namespace Update

open Document

/-- What the update adds up, as values to set. -/
def sums (u : Update) (d : Document) : List (String × Value) :=
  u.incs.map fun i => (i.1, .int64 (d.counter i.1 + i.2))

theorem map_fst_sums (u : Update) (d : Document) : (u.sums d).map Prod.fst = u.incs.map Prod.fst := by
  rw [sums, List.map_map]
  rfl

variable {u : Update}

theorem addAll_eq_setAll {incs : List (String × Int64)}
    (hapart : (incs.map Prod.fst).Pairwise Apart) (d : Document) :
    addAll incs d = setAll (incs.map fun i => (i.1, .int64 (d.counter i.1 + i.2))) d := by
  induction incs generalizing d with
  | nil => rfl
  | cons i r ih =>
    rw [List.map_cons, List.pairwise_cons] at hapart
    have hcounters : ∀ j ∈ r, (d.addPath i.1 i.2).counter j.1 = d.counter j.1 := by
      intro j hj
      have hj := hapart.1 j.1 (List.mem_map_of_mem hj)
      rw [counter, addPath, readPath?_writePath_of_apart hj, counter]
    rw [addAll_cons, ih hapart.2, List.map_cons, setAll_cons]
    refine congrArg (setAll · _) (List.map_congr_left ?_)
    intro j hj
    rw [hcounters j hj]

/-- **An update sets values**, if its paths are apart: those of its own, and the sums. -/
theorem apply_eq_setAll (hapart : u.paths.Pairwise Apart) (d : Document) :
    u.apply d = setAll (u.sets ++ u.sums d) d := by
  rw [paths, List.pairwise_append] at hapart
  obtain ⟨-, hincs, hboth⟩ := hapart
  have hcounters : ∀ i ∈ u.incs, (setAll u.sets d).counter i.1 = d.counter i.1 := by
    intro i hi
    have hothers : ∀ s ∈ u.sets, Apart s.1 i.1 := fun s hs =>
      hboth s.1 (List.mem_map_of_mem hs) i.1 (List.mem_map_of_mem hi)
    rw [counter, readPath?_setAll_of_apart hothers, counter]
  rw [apply_eq, addAll_eq_setAll hincs, setAll_append, sums]
  refine congrArg (setAll · _) (List.map_congr_left ?_)
  intro i hi
  rw [hcounters i hi]

/-- The update, unless one of its writes is refused. -/
def run (u : Update) (d : Document) : Except StoreError Document := do
  let d ← u.sets.foldlM (fun d s => d.setPath s.1 s.2) d
  u.incs.foldlM (fun d i => d.setPath i.1 (.int64 (d.counter i.1 + i.2))) d

/-- **An update is never refused.** -/
theorem run_eq (u : Update) (d : Document) : u.run d = .ok (u.apply d) := by
  have hfold : ∀ {α : Type} (f : Document → α → Document) (items : List α) (d : Document),
      items.foldlM (fun d x => Except.ok (f d x)) d =
        (Except.ok (items.foldl f d) : Except StoreError Document) := by
    intro α f items
    induction items with
    | nil => intro d; rfl
    | cons x items ih => intro d; exact ih (f d x)
  simp only [run, setPath_eq]
  rw [hfold]
  exact hfold _ _ _

end Update

open Document in
/-- **Writes at dotted paths**, for all documents, paths and values. A write is not refused; what is
written is read back; and what is read at a path that is neither the path itself nor before or
behind it on one way is what was read there. So an update whose paths are apart from each other, and
whose sums are within 64 bits, is not refused; each of its paths holds the value that is set, or the
sum; and it leaves documents that are equal without an order, in whatever order its entries are. -/
theorem updates_unordered :
    (∀ (d : Document) (p : String) (v : Value),
      d.setPath p v = .ok (d.writePath p v) ∧ (d.writePath p v).readPath? p = some v ∧
      ∀ q, q ≠ p → (∀ rest, q ≠ p ++ "." ++ rest) → (∀ rest, p ≠ q ++ "." ++ rest) →
        (d.writePath p v).readPath? q = d.readPath? q) ∧
    ∀ (u : Update) (d : Document),
      u.paths.Pairwise (fun p q => q ≠ p ∧ (∀ rest, q ≠ p ++ "." ++ rest) ∧
        ∀ rest, p ≠ q ++ "." ++ rest) →
      (∀ i ∈ u.incs, Double.minInt64 ≤ (d.counter i.1).toInt + i.2.toInt ∧
        (d.counter i.1).toInt + i.2.toInt ≤ Double.maxInt64) →
      u.run d = .ok (u.apply d) ∧
      (∀ s ∈ u.sets, (u.apply d).readPath? s.1 = some s.2) ∧
      (∀ i ∈ u.incs, ∃ n : Int64, (u.apply d).readPath? i.1 = some (.int64 n) ∧
        n.toInt = (d.counter i.1).toInt + i.2.toInt) ∧
      ∀ u' : Update, u.sets.Perm u'.sets → u.incs.Perm u'.incs →
        Unordered (u.apply d) (u'.apply d) := by
  refine ⟨fun d p v => ⟨setPath_eq d p v, readPath?_writePath_self d p v, ?_⟩, ?_⟩
  · intro q hne hbehind hbefore
    exact readPath?_writePath_of_apart (apart_iff.mpr ⟨hne, hbehind, hbefore⟩) d v
  · intro u d hpaths hrange
    have hapart : u.paths.Pairwise Apart := hpaths.imp fun h => apart_iff.mpr h
    have hentries : ((u.sets ++ u.sums d).map Prod.fst).Pairwise Apart := by
      rw [List.map_append, Update.map_fst_sums]
      exact hapart
    have hfound : ∀ s ∈ u.sets ++ u.sums d, (u.apply d).readPath? s.1 = some s.2 := by
      intro s hs
      rw [Update.apply_eq_setAll hapart]
      exact readPath?_setAll_of_mem hentries hs d
    refine ⟨Update.run_eq u d, fun s hs => hfound s (List.mem_append_left _ hs), ?_, ?_⟩
    · intro i hi
      have hsum : (i.1, Value.int64 (d.counter i.1 + i.2)) ∈ u.sets ++ u.sums d :=
        List.mem_append_right _ (List.mem_map_of_mem hi)
      obtain ⟨hlow, hhigh⟩ := hrange i hi
      rw [Double.minInt64] at hlow
      rw [Double.maxInt64] at hhigh
      refine ⟨d.counter i.1 + i.2, hfound _ hsum, ?_⟩
      rw [Int64.toInt_add, Int.bmod_eq_of_le (by omega) (by omega)]
    · intro u' hsets hincs
      have hpaths' : u.paths.Perm u'.paths :=
        (hsets.map Prod.fst).append (hincs.map Prod.fst)
      have hapart' : u'.paths.Pairwise Apart :=
        (hpaths'.pairwise_iff fun h => Apart.symm h).mp hapart
      rw [Update.apply_eq_setAll hapart, Update.apply_eq_setAll hapart']
      exact unordered_setAll_of_perm (hsets.append (hincs.map _)) hentries d

/-- Two settings and a count. -/
def Update.ofSettings : Update where
  sets := [("settings.priority", .int32 9), ("settings.color", .string "red")]
  incs := [("version", 1)]

/-- The same entries, the settings the other way round. -/
def Update.ofSettingsBack : Update where
  sets := [("settings.color", .string "red"), ("settings.priority", .int32 9)]
  incs := [("version", 1)]

/-- A document whose settings are a text. -/
def Document.withoutSettings : Document :=
  [("name", .string "Suppliers"), ("settings", .string "none"), ("version", .int64 7)]

/-- **Settings are written in two orders**, where a text had stood in their place. The name stays. -/
theorem settings_unordered :
    (Document.withoutSettings.writePath "settings.priority" (.int32 9)).readPath? "name" =
      Document.withoutSettings.readPath? "name" ∧
    Update.ofSettings.paths.Pairwise (fun p q => q ≠ p ∧ (∀ rest, q ≠ p ++ "." ++ rest) ∧
      ∀ rest, p ≠ q ++ "." ++ rest) ∧
    (∀ i ∈ Update.ofSettings.incs,
      Double.minInt64 ≤ (Document.withoutSettings.counter i.1).toInt + i.2.toInt ∧
        (Document.withoutSettings.counter i.1).toInt + i.2.toInt ≤ Double.maxInt64) ∧
    (Update.ofSettings.apply Document.withoutSettings).readPath? "settings.priority" =
      some (.int32 9) ∧
    (∃ n : Int64, (Update.ofSettings.apply Document.withoutSettings).readPath? "version" =
      some (.int64 n) ∧ n.toInt = 8) ∧
    Unordered (Update.ofSettings.apply Document.withoutSettings)
      (Update.ofSettingsBack.apply Document.withoutSettings) := by
  have hname : Apart "settings.priority" "name" := by decide +kernel
  obtain ⟨hne, hbehind, hbefore⟩ := apart_iff.mp hname
  have hapart : Update.ofSettings.paths.Pairwise Apart := by decide +kernel
  have hpaths := hapart.imp fun {p q} (h : Apart p q) => apart_iff.mp h
  have hcounter : (Document.withoutSettings.counter "version").toInt = 7 := by decide +kernel
  have hrange : ∀ i ∈ Update.ofSettings.incs,
      Double.minInt64 ≤ (Document.withoutSettings.counter i.1).toInt + i.2.toInt ∧
        (Document.withoutSettings.counter i.1).toInt + i.2.toInt ≤ Double.maxInt64 := by
    intro i hi
    obtain rfl := List.mem_singleton.mp hi
    rw [hcounter]
    decide
  obtain ⟨-, hsets, hincs, horder⟩ :=
    updates_unordered.2 Update.ofSettings Document.withoutSettings hpaths hrange
  obtain ⟨n, hread, hsum⟩ := hincs _ List.mem_cons_self
  refine ⟨(updates_unordered.1 _ _ _).2.2 "name" hne hbehind hbefore, hpaths, hrange,
    hsets _ List.mem_cons_self, ⟨n, hread, ?_⟩, horder Update.ofSettingsBack (.swap _ _ _) (.refl _)⟩
  rw [hsum, hcounter]
  decide

end Registrar
