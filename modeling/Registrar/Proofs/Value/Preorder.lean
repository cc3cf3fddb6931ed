import Registrar.Proofs.Value.Equivalence
import Registrar.Proofs.Value.Ordering

/-!
# Where the order of values is transitive

Plain values are ordered, and of two that are equal in order each stands to any other value as the
other does. A value that is not plain breaks both. For it is equal in order to two plain values of
which one is less than the other: where a NaN, a decimal number or a symbol stands in it, two
numbers or two texts may stand as well.

* `order_congr`: plain values that are equal in order compare alike.
* `Value.filled`: a value with plain ones in the place of those that are not.
* `isPlain_iff_between`: a value is plain just if the order is transitive through it.
* `isPlain_iff_alike`: and just if its equals compare like it.
-/

namespace Registrar

theorem Double.Point.eq_of_order {a b : Point} (ha : a ≠ .nan) (hb : b ≠ .nan)
    (h : a.order b = .eq) : a = b := by
  cases a <;> cases b <;> simp_all [order, compare?]

namespace Value

variable {a b c v : Value}

/-! ### Members -/

theorem itemsArePlain_iff {items : List Value} :
    itemsArePlain items = true ↔ ∀ v ∈ items, v.isPlain = true := by
  induction items with
  | nil => simp [itemsArePlain]
  | cons v r ih => rw [itemsArePlain, Bool.and_eq_true, ih, List.forall_mem_cons]

theorem fieldsArePlain_iff {fields : List (String × Value)} :
    fieldsArePlain fields = true ↔ ∀ f ∈ fields, f.2.isPlain = true := by
  induction fields with
  | nil => simp [fieldsArePlain]
  | cons f r ih => rw [fieldsArePlain, Bool.and_eq_true, ih, List.forall_mem_cons]

/-! ### Equals compare alike -/

theorem rank_eq_of_order (h : a.order b = .eq) : a.rank = b.rank ∧ a.orderWithin b = .eq := by
  rw [order_eq, Ordering.then_eq_eq] at h
  exact ⟨Std.LawfulEqCmp.eq_of_compare h.1, h.2⟩

theorem order_congr_of_rank (hab : a.rank = b.rank)
    (hwithin : a.rank = c.rank → a.orderWithin c = b.orderWithin c) : a.order c = b.order c := by
  rw [order_eq a c, order_eq b c, ← hab]
  by_cases hc : a.rank = c.rank
  · rw [hwithin hc]
  · cases hcompare : compare a.rank c.rank with
    | eq => exact absurd (Std.LawfulEqCmp.eq_of_compare hcompare) hc
    | lt | gt => rfl

theorem orderWithin_congr (hparts : a.rank ≠ 3 ∧ a.rank ≠ 4) (ha : a.isPlain = true)
    (hb : b.isPlain = true) (h : a.order b = .eq) (hc : a.rank = c.rank) :
    a.orderWithin c = b.orderWithin c := by
  obtain ⟨hab, hwithin⟩ := rank_eq_of_order h
  have hbc : b.rank = c.rank := hab.symm.trans hc
  rcases a.rank_cases with hr | hr | hr | hr | hr | hr | hr | hr
  · rw [orderWithin_of_unordered hc hr, orderWithin_of_unordered hbc (hab ▸ hr)]
  · obtain ⟨x, hx, hxn⟩ := number?_eq_some hr ha
    obtain ⟨y, hy, hyn⟩ := number?_eq_some (hab ▸ hr) hb
    rw [orderWithin_of_numbers hx hy] at hwithin
    cases hz : c.number? with
    | some z =>
      rw [orderWithin_of_numbers hx hz, orderWithin_of_numbers hy hz,
        Double.Point.eq_of_order hxn hyn hwithin]
    | none =>
      rw [(orderWithin_of_unread (hc ▸ hr) hz hr).2,
        (orderWithin_of_unread (hc ▸ hr) hz (hab ▸ hr)).2]
  · obtain ⟨s, rfl⟩ := eq_string hr ha
    obtain ⟨t, rfl⟩ := eq_string (hab ▸ hr) hb
    have hst : compare s t = .eq := hwithin
    rw [Std.LawfulEqCmp.eq_of_compare hst]
  · exact absurd hr hparts.1
  · exact absurd hr hparts.2
  · obtain ⟨k, as, rfl⟩ := eq_binary hr
    obtain ⟨l, bs, rfl⟩ := eq_binary (hab ▸ hr)
    obtain ⟨m, cs, rfl⟩ := eq_binary (hc ▸ hr)
    have hbytes : as = bs := eq_of_compareBytes hwithin
    rw [hbytes]
    rfl
  · obtain ⟨x, rfl⟩ := eq_bool hr
    obtain ⟨y, rfl⟩ := eq_bool (hab ▸ hr)
    cases x <;> cases y <;> first | rfl | cases hwithin
  · obtain ⟨x, rfl⟩ := eq_dateTime hr
    obtain ⟨y, rfl⟩ := eq_dateTime (hab ▸ hr)
    obtain ⟨z, rfl⟩ := eq_dateTime (hc ▸ hr)
    have hxy : compare x.toInt y.toInt = .eq := hwithin
    have heq : x.toInt = y.toInt := Std.LawfulEqCmp.eq_of_compare hxy
    show compare x.toInt z.toInt = compare y.toInt z.toInt
    rw [heq]

theorem orderItems_eq_iff {as bs : List Value} :
    orderItems as bs = .eq ↔ List.Forall₂ (fun a b => a.order b = .eq) as bs := by
  induction as generalizing bs with
  | nil => cases bs <;> simp [orderItems]
  | cons a as ih => cases bs <;> simp [orderItems, ih, Ordering.then_eq_eq]

theorem orderFields_eq_iff {fs gs : List (String × Value)} : orderFields fs gs = .eq ↔
    List.Forall₂ (fun f g => f.1 = g.1 ∧ f.2.order g.2 = .eq) fs gs := by
  induction fs generalizing gs with
  | nil => cases gs <;> simp [orderFields]
  | cons f fs ih =>
    cases gs <;> simp [orderFields, ih, Ordering.then_eq_eq, Std.LawfulEqCmp.compare_eq_iff_eq]

/-- **Plain values that are equal in order** compare alike with every value. -/
theorem order_congr (ha : a.isPlain = true) (hb : b.isPlain = true) (h : a.order b = .eq)
    (c : Value) : a.order c = b.order c := by
  induction a using inductionOn generalizing b c with
  | scalar a harray hdocument =>
    refine order_congr_of_rank (rank_eq_of_order h).1 (orderWithin_congr ⟨?_, ?_⟩ ha hb h)
    · intro hr
      obtain ⟨fields, rfl⟩ := eq_document hr
      cases hdocument
    · intro hr
      obtain ⟨items, rfl⟩ := eq_array hr
      cases harray
  | array as ih =>
    obtain ⟨hrank, hwithin⟩ := rank_eq_of_order h
    refine order_congr_of_rank hrank fun hc => ?_
    obtain ⟨bs, rfl⟩ := eq_array hrank.symm
    obtain ⟨cs, rfl⟩ := eq_array hc.symm
    have hitems := orderItems_eq_iff.mp hwithin
    rw [isPlain, itemsArePlain_iff] at ha hb
    show orderItems as cs = orderItems bs cs
    clear h hrank hwithin hc
    induction hitems generalizing cs with
    | nil => rfl
    | cons hab _ ihrest =>
      rw [List.forall_mem_cons] at ih ha hb
      cases cs with
      | nil => rfl
      | cons c cs => rw [orderItems, orderItems, ih.1 ha.1 hb.1 hab, ihrest ih.2 ha.2 hb.2]
  | document fs ih =>
    obtain ⟨hrank, hwithin⟩ := rank_eq_of_order h
    refine order_congr_of_rank hrank fun hc => ?_
    obtain ⟨gs, rfl⟩ := eq_document hrank.symm
    obtain ⟨hs, rfl⟩ := eq_document hc.symm
    have hfields := orderFields_eq_iff.mp hwithin
    rw [isPlain, fieldsArePlain_iff] at ha hb
    show orderFields fs hs = orderFields gs hs
    clear h hrank hwithin hc
    induction hfields generalizing hs with
    | nil => rfl
    | cons hfg _ ihrest =>
      rw [List.forall_mem_cons] at ih ha hb
      cases hs with
      | nil => rfl
      | cons c hs =>
        rw [orderFields, orderFields, ih.1 ha.1 hb.1 hfg.2, ihrest ih.2 ha.2 hb.2, hfg.1]

/-! ### Plain values in the place of others -/

mutual

/-- **A value with plain ones in the place of those that are not**, either low or high ones. -/
def filled (high : Bool) : Value → Value
  | .double d => if d.isNaN then .int32 (if high then 1 else 0) else .double d
  | .decimal128 _ => .int32 (if high then 1 else 0)
  | .symbol _ => .string (if high then "a" else "")
  | .array items => .array (filledItems high items)
  | .document fields => .document (filledFields high fields)
  | v => v

def filledItems (high : Bool) : List Value → List Value
  | [] => []
  | v :: r => filled high v :: filledItems high r

def filledFields (high : Bool) : List (String × Value) → List (String × Value)
  | [] => []
  | (k, v) :: r => (k, filled high v) :: filledFields high r

end

theorem filledItems_eq_map (high : Bool) (items : List Value) :
    filledItems high items = items.map (filled high) := by
  induction items with
  | nil => rfl
  | cons v r ih => rw [filledItems, ih, List.map_cons]

theorem filledFields_eq_map (high : Bool) (fields : List (String × Value)) :
    filledFields high fields = fields.map fun f => (f.1, f.2.filled high) := by
  induction fields with
  | nil => rfl
  | cons f r ih => rw [filledFields, ih, List.map_cons]

theorem isPlain_filled (high : Bool) (v : Value) : (v.filled high).isPlain = true := by
  induction v using inductionOn with
  | scalar v harray hdocument =>
    cases v with
    | array => cases harray
    | document => cases hdocument
    | double d => by_cases hnan : d.isNaN = true <;> simp [filled, isPlain, hnan]
    | _ => rfl
  | array items ih =>
    rw [filled, isPlain, itemsArePlain_iff, filledItems_eq_map]
    exact List.forall_mem_map.mpr ih
  | document fields ih =>
    rw [filled, isPlain, fieldsArePlain_iff, filledFields_eq_map]
    exact List.forall_mem_map.mpr ih

/-- **A value is equal in order** to the plain ones in its place. -/
theorem order_filled (high : Bool) (v : Value) : v.order (v.filled high) = .eq := by
  induction v using inductionOn with
  | scalar v harray hdocument =>
    cases v with
    | array => cases harray
    | document => cases hdocument
    | decimal128 | symbol => rfl
    | double d =>
      by_cases hnan : d.isNaN = true
      · rw [Double.isNaN, beq_iff_eq] at hnan
        simp [filled, Double.isNaN, order, rank, orderScalars, number?, Double.compare?, hnan,
          Double.Point.compare?]
      · simp [filled, hnan, order_self]
    | _ => exact order_self _
  | array items ih =>
    rw [filled, order, orderItems_eq_iff, filledItems_eq_map, List.forall₂_map_right_iff]
    exact List.forall₂_same.mpr ih
  | document fields ih =>
    rw [filled, order, orderFields_eq_iff, filledFields_eq_map, List.forall₂_map_right_iff]
    exact List.forall₂_same.mpr fun f hf => ⟨rfl, ih f hf⟩

theorem zero_order_one : (Value.int32 0).order (.int32 1) = .lt := by decide +kernel

/-- **If a value is not plain**, the low one in its place is less than the high one. -/
theorem order_filled_filled (v : Value) :
    (v.filled false).order (v.filled true) = if v.isPlain then .eq else .lt := by
  induction v using inductionOn with
  | scalar v harray hdocument =>
    cases v with
    | array => cases harray
    | document => cases hdocument
    | decimal128 => exact zero_order_one
    | symbol => rfl
    | double d =>
      by_cases hnan : d.isNaN = true
      · simp [filled, isPlain, hnan, zero_order_one]
      · simp [filled, isPlain, hnan, order_self]
    | _ => exact order_self _
  | array items ih =>
    rw [filled, filled, order, isPlain]
    induction items with
    | nil => rfl
    | cons x r ihr =>
      rw [List.forall_mem_cons] at ih
      rw [filledItems, filledItems, orderItems, ih.1, ihr ih.2, itemsArePlain]
      cases x.isPlain <;> rfl
  | document fields ih =>
    rw [filled, filled, order, isPlain]
    induction fields with
    | nil => rfl
    | cons f r ihr =>
      rw [List.forall_mem_cons] at ih
      have hkey : compare f.1 f.1 = .eq := Std.ReflCmp.compare_self
      rw [filledFields, filledFields, orderFields, ih.1, ihr ih.2, hkey, fieldsArePlain]
      cases f.2.isPlain <;> rfl

/-! ### Where the order is transitive -/

/-- **A value is plain** just if the order of plain values is transitive through it. -/
theorem isPlain_iff_between : b.isPlain = true ↔ ∀ a c : Value, a.isPlain = true →
    c.isPlain = true → (a.order b).isLE = true → (b.order c).isLE = true →
    (a.order c).isLE = true := by
  constructor
  · intro hb a c ha hc hab hbc
    exact (order_chained a b c ha hb hc hab hbc).1
  · intro htrans
    by_contra hb
    have hlow : ((b.filled true).order b).isLE = true := by
      rw [order_swap, order_filled]
      rfl
    have hhigh : (b.order (b.filled false)).isLE = true := by
      rw [order_filled]
      rfl
    have hle := htrans _ _ (isPlain_filled true b) (isPlain_filled false b) hlow hhigh
    rw [order_swap, order_filled_filled, if_neg hb] at hle
    cases hle

/-- **A value is plain** just if the plain values that are equal to it compare like it. -/
theorem isPlain_iff_alike : b.isPlain = true ↔ ∀ a : Value, a.isPlain = true → a.order b = .eq →
    ∀ c, a.order c = b.order c := by
  constructor
  · intro hb a ha hab c
    exact order_congr ha hb hab c
  · intro halike
    by_contra hb
    have hlow : (b.filled false).order b = .eq := by
      rw [order_swap, order_filled]
      rfl
    have hone := halike _ (isPlain_filled false b) hlow (b.filled true)
    rw [order_filled, order_filled_filled, if_neg hb] at hone
    cases hone

end Value

end Registrar
