import Registrar.Store.Update

/-!
# What an update leaves alone

A path leads through the field with its first segment, so writing at a path changes that field and
no other. A path without dots is the name of a field, and writing there puts the value; a dotted
path leaves an embedded document. From this follows what a whole update does to one field.

* `value?_writePath_of_ne`: other fields stay.
* `value?_apply_of_spares`: a field that is the head of no path stays.
* `value?_sets_cases`: what a field may hold after values were set: what it held, a value that was
  set by its name, or an embedded document.
* `value?_sets_of_last`: a value set by name stays when no later path leads there.
-/

namespace Registrar

/-! ### Segments -/

namespace Text

theorem splitDots_of_dotless {cs : List Char} (h : '.' ∉ cs) : splitDots cs = [cs] := by
  induction cs with
  | nil => rfl
  | cons c cs ih =>
    simp only [List.mem_cons, not_or] at h
    rw [splitDots, if_neg (Ne.symm h.1), ih h.2]

theorem takeWhile_of_dotless {cs : List Char} (h : '.' ∉ cs) :
    cs.takeWhile (· ≠ '.') = cs := by
  induction cs with
  | nil => rfl
  | cons c cs ih =>
    simp only [List.mem_cons, not_or] at h
    rw [List.takeWhile_cons, if_pos (by simpa using Ne.symm h.1), ih h.2]

theorem head?_splitDots (cs : List Char) :
    (splitDots cs).head? = some (cs.takeWhile (· ≠ '.')) := by
  induction cs with
  | nil => rfl
  | cons c cs ih =>
    by_cases h : c = '.'
    · simp [splitDots, h]
    · cases hs : splitDots cs with
      | nil => exact absurd hs (splitDots_ne_nil cs)
      | cons s r =>
        rw [hs, List.head?_cons, Option.some.injEq] at ih
        simp [splitDots, h, hs, ih]

theorem segments_of_dotless {name : String} (h : '.' ∉ name.toList) :
    segments name = [name] := by
  simp [segments, splitDots_of_dotless h]

theorem headSegment_of_dotless {name : String} (h : '.' ∉ name.toList) :
    headSegment name = name := by
  rw [headSegment, takeWhile_of_dotless h, String.ofList_toList]

theorem segments_eq_cons (path : String) : ∃ r, segments path = headSegment path :: r := by
  have h := head?_splitDots path.toList
  cases hs : splitDots path.toList with
  | nil => exact absurd hs (splitDots_ne_nil _)
  | cons s r =>
    rw [hs, List.head?_cons, Option.some.injEq] at h
    exact ⟨r.map String.ofList, by simp [segments, headSegment, hs, h]⟩

theorem segments_of_dotted {path : String} (h : '.' ∈ path.toList) :
    ∃ k r, segments path = headSegment path :: k :: r := by
  obtain ⟨r, hr⟩ := segments_eq_cons path
  have hl : (segments path).length = path.toList.count '.' + 1 := by
    simp [segments, length_splitDots]
  have := List.count_pos_iff.mpr h
  cases r with
  | nil => rw [hr] at hl; simp at hl; omega
  | cons k r => exact ⟨k, r, hr⟩

theorem headSegment_append_dot {root : String} (h : '.' ∉ root.toList) (leaf : String) :
    headSegment (root ++ "." ++ leaf) = root := by
  have : (root ++ "." ++ leaf).toList.takeWhile (· ≠ '.') = root.toList := by
    rw [String.toList_append, String.toList_append, List.append_assoc,
      List.takeWhile_append_of_pos (by
        intro c hc
        have : c ≠ '.' := fun he => h (he ▸ hc)
        simpa using this)]
    simp
  rw [headSegment, this, String.ofList_toList]

end Text

/-! ### Writing at a path -/

namespace Document

theorem value?_writeAt_of_ne {k other : String} (h : other ≠ k) (r : List String) (v : Value)
    (d : Document) : value? (writeAt (k :: r) v d) other = value? d other := by
  cases r with
  | nil => exact value?_put_of_ne d v h
  | cons l r => exact value?_put_of_ne d _ h

theorem value?_writePath_of_ne (d : Document) {path other : String} (v : Value)
    (h : other ≠ Text.headSegment path) : value? (d.writePath path v) other = value? d other := by
  obtain ⟨r, hr⟩ := Text.segments_eq_cons path
  rw [writePath, hr]
  exact value?_writeAt_of_ne h r v d

theorem writePath_of_dotless (d : Document) {name : String} (v : Value)
    (h : '.' ∉ name.toList) : d.writePath name v = d.put name v := by
  rw [writePath, Text.segments_of_dotless h, writeAt]

theorem value?_writePath_of_dotted (d : Document) {path : String} (v : Value)
    (h : '.' ∈ path.toList) :
    ∃ inner, value? (d.writePath path v) (Text.headSegment path) = some (.document inner) := by
  obtain ⟨k, r, hr⟩ := Text.segments_of_dotted h
  rw [writePath, hr]
  exact ⟨_, value?_put_self d _ _⟩

theorem readPath?_of_dotless (d : Document) {name : String} (h : '.' ∉ name.toList) :
    d.readPath? name = d.value? name := by
  rw [readPath?, Text.segments_of_dotless h, readAt?]

theorem value?_addPath_of_ne (d : Document) {path other : String} (n : Int64)
    (h : other ≠ Text.headSegment path) : value? (d.addPath path n) other = value? d other :=
  value?_writePath_of_ne d _ h

/-! ### Setting several values -/

/-- The document with values set one after the other. -/
def setAll (sets : List (String × Value)) (d : Document) : Document :=
  sets.foldl (fun d s => d.writePath s.1 s.2) d

@[simp] theorem setAll_cons (s : String × Value) (r : List (String × Value)) (d : Document) :
    setAll (s :: r) d = setAll r (d.writePath s.1 s.2) := rfl

theorem setAll_append (a b : List (String × Value)) (d : Document) :
    setAll (a ++ b) d = setAll b (setAll a d) := by
  simp [setAll]

theorem value?_setAll_of_ne {sets : List (String × Value)} {name : String}
    (h : ∀ s ∈ sets, name ≠ Text.headSegment s.1) (d : Document) :
    value? (setAll sets d) name = value? d name := by
  induction sets generalizing d with
  | nil => rfl
  | cons s r ih =>
    rw [setAll_cons, ih (fun x hx => h x (List.mem_cons_of_mem s hx)),
      value?_writePath_of_ne d s.2 (h s List.mem_cons_self)]

theorem value?_setAll_of_dotless {sets : List (String × Value)} (h : ∀ p ∈ sets, '.' ∉ p.1.toList)
    (name : String) (d : Document) :
    value? (setAll sets d) name = value? d name ∨
      ∃ v, (name, v) ∈ sets ∧ value? (setAll sets d) name = some v := by
  induction sets generalizing d with
  | nil => exact .inl rfl
  | cons p r ih =>
    rw [setAll_cons, writePath_of_dotless _ _ (h p List.mem_cons_self)]
    rcases ih (fun x hx => h x (List.mem_cons_of_mem p hx)) (d.put p.1 p.2) with
      hsame | ⟨v, hv, hset⟩
    · by_cases hname : name = p.1
      · subst hname
        refine .inr ⟨p.2, List.mem_cons_self, ?_⟩
        rw [hsame, value?_put_self]
      · exact .inl (hsame.trans (value?_put_of_ne d _ hname))
    · exact .inr ⟨v, List.mem_cons_of_mem p hv, hset⟩

/-- **What a field may hold after values were set**: what it held before, a value set by its name,
or a document that a dotted path led into. -/
theorem value?_sets_cases {sets : List (String × Value)} {name : String} (d : Document) :
    value? (setAll sets d) name = value? d name ∨
      (∃ v, (name, v) ∈ sets ∧ value? (setAll sets d) name = some v) ∨
      ∃ inner, value? (setAll sets d) name = some (.document inner) := by
  induction sets generalizing d with
  | nil => exact .inl rfl
  | cons s r ih =>
    obtain ⟨path, v⟩ := s
    rw [setAll_cons]
    rcases ih (d.writePath path v) with h | ⟨u, hu, h⟩ | h
    · by_cases hp : name = Text.headSegment path
      · by_cases hd : '.' ∈ path.toList
        · obtain ⟨inner, hi⟩ := value?_writePath_of_dotted d v hd
          exact .inr (.inr ⟨inner, by rw [h, hp]; exact hi⟩)
        · rw [Text.headSegment_of_dotless hd] at hp
          subst hp
          refine .inr (.inl ⟨v, List.mem_cons_self, ?_⟩)
          rw [h, writePath_of_dotless d v hd, value?_put_self]
      · exact .inl (h.trans (value?_writePath_of_ne d v hp))
    · exact .inr (.inl ⟨u, List.mem_cons_of_mem _ hu, h⟩)
    · exact .inr (.inr h)

/-- **A value set by name stays** when no later path leads there. -/
theorem value?_sets_of_last {before after : List (String × Value)} {name : String}
    (hn : '.' ∉ name.toList) (v : Value)
    (h : ∀ s ∈ after, name ≠ Text.headSegment s.1) (d : Document) :
    value? (setAll (before ++ (name, v) :: after) d) name = some v := by
  rw [setAll_append, setAll_cons, value?_setAll_of_ne h, writePath_of_dotless _ v hn,
    value?_put_self]

/-- The document with counters increased one after the other. -/
def addAll (incs : List (String × Int64)) (d : Document) : Document :=
  incs.foldl (fun d i => d.addPath i.1 i.2) d

theorem value?_addAll_of_ne {incs : List (String × Int64)} {name : String}
    (h : ∀ i ∈ incs, name ≠ Text.headSegment i.1) (d : Document) :
    value? (addAll incs d) name = value? d name := by
  induction incs generalizing d with
  | nil => rfl
  | cons i r ih =>
    exact (ih (fun x hx => h x (List.mem_cons_of_mem i hx)) (d.addPath i.1 i.2)).trans
      (value?_addPath_of_ne d i.2 (h i List.mem_cons_self))

end Document

/-! ### Updates -/

namespace Update

open Document

theorem apply_eq (u : Update) (d : Document) : u.apply d = addAll u.incs (setAll u.sets d) := rfl

/-- The update writes nothing into the field. -/
def Spares (u : Update) (name : String) : Prop :=
  (∀ s ∈ u.sets, name ≠ Text.headSegment s.1) ∧ ∀ i ∈ u.incs, name ≠ Text.headSegment i.1

/-- **A field that is the head of no path stays.** -/
theorem value?_apply_of_spares {u : Update} {name : String} (h : u.Spares name) (d : Document) :
    value? (u.apply d) name = value? d name := by
  rw [apply_eq, value?_addAll_of_ne h.2, value?_setAll_of_ne h.1]

theorem value?_apply_inc_of_ne {u : Update} {name field : String} (n : Int64)
    (hf : name ≠ Text.headSegment field) (d : Document) :
    value? ((u.inc field n).apply d) name = value? (u.apply d) name := by
  simp only [apply_eq, inc, addAll, List.foldl_append, List.foldl_cons, List.foldl_nil]
  exact value?_addPath_of_ne _ n hf

/-- **Counting in a field that the update spares** adds to what the field held. -/
theorem value?_apply_inc {u : Update} {field : String} (hd : '.' ∉ field.toList)
    (h : u.Spares field) (n : Int64) (d : Document) :
    value? ((u.inc field n).apply d) field = some (.int64 (d.counter field + n)) := by
  have hs : (u.apply d).counter field = d.counter field := by
    rw [counter, counter, readPath?_of_dotless _ hd, readPath?_of_dotless _ hd,
      value?_apply_of_spares h]
  have : (u.inc field n).apply d = (u.apply d).addPath field n := by
    simp only [apply_eq, inc, addAll, List.foldl_append, List.foldl_cons, List.foldl_nil]
  rw [this, addPath, hs, writePath_of_dotless _ _ hd, value?_put_self]

end Update

end Registrar
