import Registrar.Proofs.Double.Rounding
import Registrar.Proofs.Value.Sorting

/-!
# The order of values is an order

The order of values is total, and it is transitive except where a value stands beside all others of
its kind: a NaN beside the numbers, a decimal number, which is not read, beside them too, and a
symbol beside the texts. Values without these, at any depth, are **plain**.

Lexicographic orders are built with `Ordering.then`. So transitivity is stated for three outcomes
at once, in a form that passes through `then`.

* `Value.isPlain`: the values that are ordered.
* `Chained`: three outcomes as a transitive comparison gives them, with `Chained.then_`.
* `order_swap`: the order of values is total.
* `order_chained`: the order of plain values is transitive.
-/

namespace Registrar

/-! ### Three outcomes -/

/-- **The outcomes of comparing three items**, the first with the second, the second with the
third, and the first with the third, as a transitive comparison gives them. -/
def Chained (ab bc ac : Ordering) : Prop :=
  ab.isLE = true → bc.isLE = true → ac.isLE = true ∧ (ac = .eq → ab = .eq ∧ bc = .eq)

namespace Chained

/-- **Lexicographic comparison is transitive**, where the second part counts only if the first
leaves all three equal. -/
theorem then_ {ab bc ac ab' bc' ac' : Ordering} (h : Chained ab bc ac)
    (h' : ab = .eq → bc = .eq → ac = .eq → Chained ab' bc' ac') :
    Chained (ab.then ab') (bc.then bc') (ac.then ac') := by
  cases ab <;> cases bc <;> cases ac <;> simp_all [Chained]

theorem of_eq : Chained .eq .eq .eq := fun _ _ => ⟨rfl, fun _ => ⟨rfl, rfl⟩⟩

theorem of_transCmp {α : Type} {cmp : α → α → Ordering} [Std.TransCmp cmp] (a b c : α) :
    Chained (cmp a b) (cmp b c) (cmp a c) := by
  intro hab hbc
  refine ⟨Std.TransCmp.isLE_trans hab hbc, fun hac => ⟨?_, ?_⟩⟩
  · cases h : cmp a b with
    | lt => rw [Std.TransCmp.lt_of_lt_of_isLE h hbc] at hac; cases hac
    | eq => rfl
    | gt => rw [h] at hab; cases hab
  · cases h : cmp b c with
    | lt => rw [Std.TransCmp.lt_of_isLE_of_lt hab h] at hac; cases hac
    | eq => rfl
    | gt => rw [h] at hbc; cases hbc

theorem of_compare {α : Type} [Ord α] [Std.TransOrd α] (a b c : α) :
    Chained (compare a b) (compare b c) (compare a c) :=
  of_transCmp a b c

end Chained

theorem eq_of_eq_swap {o : Ordering} (h : o = o.swap) : o = .eq := by
  cases o with
  | eq => rfl
  | lt | gt => cases h

/-! ### Parts of values -/

theorem compareBytes_swap (as bs : List UInt8) :
    compareBytes bs as = (compareBytes as bs).swap := by
  induction as generalizing bs with
  | nil => cases bs <;> rfl
  | cons a as ih =>
    cases bs with
    | nil => rfl
    | cons b bs =>
      have hab : compare b a = (compare a b).swap := Std.OrientedCmp.eq_swap
      rw [compareBytes, compareBytes, Ordering.swap_then, ih bs, hab]

theorem compareBytes_chained (as bs cs : List UInt8) :
    Chained (compareBytes as bs) (compareBytes bs cs) (compareBytes as cs) := by
  induction as generalizing bs cs with
  | nil => cases bs <;> cases cs <;> simp [Chained, compareBytes]
  | cons a as ih =>
    cases bs with
    | nil => cases cs <;> simp [Chained, compareBytes]
    | cons b bs =>
      cases cs with
      | nil => simp [Chained, compareBytes]
      | cons c cs => exact (Chained.of_transCmp a b c).then_ fun _ _ _ => ih bs cs

theorem eq_of_compareBytes {as bs : List UInt8} (h : compareBytes as bs = .eq) : as = bs := by
  induction as generalizing bs with
  | nil =>
    cases bs with
    | nil => rfl
    | cons b bs => cases h
  | cons a as ih =>
    cases bs with
    | nil => cases h
    | cons b bs =>
      obtain ⟨hab, hr⟩ := Ordering.then_eq_eq.mp h
      rw [Std.LawfulEqCmp.eq_of_compare hab, ih hr]

namespace Double

/-- The order of two points, a NaN being equal to all. -/
def Point.order (a b : Point) : Ordering := (a.compare? b).getD .eq

theorem Point.order_swap (a b : Point) : b.order a = (a.order b).swap := by
  have hfinite : ∀ x y : Int, compare y x = (compare x y).swap := fun _ _ =>
    Std.OrientedCmp.eq_swap
  cases a <;> cases b <;> first
    | rfl
    | exact hfinite _ _

theorem Point.order_chained {a b c : Point} (ha : a ≠ .nan) (hb : b ≠ .nan) (hc : c ≠ .nan) :
    Chained (a.order b) (b.order c) (a.order c) := by
  have hfinite : ∀ x y z : Int, Chained (compare x y) (compare y z) (compare x z) :=
    Chained.of_transCmp
  cases a <;> cases b <;> cases c <;> first
    | contradiction
    | exact hfinite _ _ _
    | simp [Chained, Point.order, Point.compare?]

end Double

namespace Value

/-! ### Plain values -/

mutual

/-- **The values that are ordered**: no NaN, decimal number or symbol in them. -/
def isPlain : Value → Bool
  | .double d => !d.isNaN
  | .decimal128 _ | .symbol _ => false
  | .array items => itemsArePlain items
  | .document fields => fieldsArePlain fields
  | _ => true

def itemsArePlain : List Value → Bool
  | [] => true
  | v :: r => isPlain v && itemsArePlain r

def fieldsArePlain : List (String × Value) → Bool
  | [] => true
  | (_, v) :: r => isPlain v && fieldsArePlain r

end

/-- The order of values of one kind. -/
def orderWithin : Value → Value → Ordering
  | .array as, .array bs => orderItems as bs
  | .document fs, .document gs => orderFields fs gs
  | a, b => orderScalars a b

/-- **Kinds decide first.** -/
theorem order_eq (a b : Value) : a.order b = (compare a.rank b.rank).then (a.orderWithin b) := by
  fun_cases order a b with
  | case1 as bs => simp [orderWithin, rank]
  | case2 fs gs => simp [orderWithin, rank]
  | case3 a b ha hd => rw [orderWithin] <;> assumption

/-! ### Kinds -/

theorem number?_eq_some {a : Value} (ha : a.rank = 1) (hp : a.isPlain = true) :
    ∃ x, a.number? = some x ∧ x.point ≠ .nan := by
  cases a <;> simp [rank] at ha
  case int32 n => exact ⟨_, rfl, by simpa [Double.isNaN] using Double.isNaN_ofInt n.toInt⟩
  case int64 n => exact ⟨_, rfl, by simpa [Double.isNaN] using Double.isNaN_ofInt n.toInt⟩
  case double d => exact ⟨d, rfl, by simpa [isPlain, Double.isNaN] using hp⟩
  case decimal128 bytes => cases hp

theorem orderScalars_numbers {a b : Value} {x y : Double} (ha : a.number? = some x)
    (hb : b.number? = some y) : orderScalars a b = x.point.order y.point := by
  cases a <;> cases ha <;> cases b <;> cases hb <;> rfl

theorem eq_string {a : Value} (ha : a.rank = 2) (hp : a.isPlain = true) : ∃ s, a = .string s := by
  cases a <;> simp_all [rank, isPlain]

theorem orderScalars_unordered {a b : Value} (hab : a.rank = b.rank)
    (ha : a.rank = 0 ∨ a.rank = 6 ∨ a.rank = 9 ∨ a.rank = 10) : orderScalars a b = .eq := by
  cases a <;> simp [rank] at ha <;> cases b <;> simp [rank] at hab <;> rfl

theorem eq_binary {a : Value} (ha : a.rank = 5) : ∃ k bytes, a = .binary k bytes := by
  cases a <;> simp_all [rank]

theorem eq_bool {a : Value} (ha : a.rank = 7) : ∃ b, a = .bool b := by
  cases a <;> simp_all [rank]

theorem eq_dateTime {a : Value} (ha : a.rank = 8) : ∃ n, a = .dateTime n := by
  cases a <;> simp_all [rank]

theorem eq_array {a : Value} (ha : a.rank = 4) : ∃ items, a = .array items := by
  cases a <;> simp_all [rank]

theorem eq_document {a : Value} (ha : a.rank = 3) : ∃ fields, a = .document fields := by
  cases a <;> simp_all [rank]

theorem rank_cases (a : Value) : (a.rank = 0 ∨ a.rank = 6 ∨ a.rank = 9 ∨ a.rank = 10) ∨
    a.rank = 1 ∨ a.rank = 2 ∨ a.rank = 3 ∨ a.rank = 4 ∨ a.rank = 5 ∨ a.rank = 7 ∨ a.rank = 8 := by
  cases a <;> simp [rank]

theorem orderWithin_of_unordered {a b : Value} (hab : a.rank = b.rank)
    (ha : a.rank = 0 ∨ a.rank = 6 ∨ a.rank = 9 ∨ a.rank = 10) : orderWithin a b = .eq := by
  rw [orderWithin]
  · exact orderScalars_unordered hab ha
  · rintro as bs rfl
    simp [rank] at ha
  · rintro fs gs rfl
    simp [rank] at ha

theorem orderWithin_of_numbers {a b : Value} {x y : Double} (ha : a.number? = some x)
    (hb : b.number? = some y) : orderWithin a b = x.point.order y.point := by
  rw [orderWithin]
  · exact orderScalars_numbers ha hb
  · rintro as bs rfl
    cases ha
  · rintro fs gs rfl
    cases ha

/-! ### The order -/

/-- **A decimal number** is not read, and is equal in order to every number. -/
theorem orderWithin_of_unread {a b : Value} (ha : a.rank = 1) (hunread : a.number? = none)
    (hb : b.rank = 1) : orderWithin a b = .eq ∧ orderWithin b a = .eq := by
  cases a <;> simp [rank] at ha <;> simp [number?] at hunread
  cases b <;> simp [rank] at hb <;> exact ⟨rfl, rfl⟩

theorem orderWithin_swap_numbers {a b : Value} (ha : a.rank = 1) (hb : b.rank = 1) :
    orderWithin b a = (orderWithin a b).swap := by
  cases hx : a.number? with
  | none =>
    obtain ⟨hab, hba⟩ := orderWithin_of_unread ha hx hb
    rw [hab, hba]
    rfl
  | some x =>
    cases hy : b.number? with
    | none =>
      obtain ⟨hba, hab⟩ := orderWithin_of_unread hb hy ha
      rw [hab, hba]
      rfl
    | some y =>
      rw [orderWithin_of_numbers hx hy, orderWithin_of_numbers hy hx, Double.Point.order_swap]

theorem orderWithin_swap_texts {a b : Value} (ha : a.rank = 2) (hb : b.rank = 2) :
    orderWithin b a = (orderWithin a b).swap := by
  cases a <;> simp [rank] at ha <;> cases b <;> simp [rank] at hb
  case string.string s t => exact (Std.OrientedCmp.eq_swap : compare t s = (compare s t).swap)
  all_goals rfl

mutual

/-- **The order of values is total**, and turns around when the values are exchanged. -/
theorem order_swap (a b : Value) : b.order a = (a.order b).swap := by
  rw [order_eq a b, order_eq b a, Ordering.swap_then]
  have hrank : compare b.rank a.rank = (compare a.rank b.rank).swap := Std.OrientedCmp.eq_swap
  rw [hrank]
  by_cases hab : a.rank = b.rank
  · congr 1
    rcases a.rank_cases with hr | hr | hr | hr | hr | hr | hr | hr
    · rw [orderWithin_of_unordered hab hr, orderWithin_of_unordered hab.symm (hab ▸ hr)]
      rfl
    · exact orderWithin_swap_numbers hr (hab ▸ hr)
    · exact orderWithin_swap_texts hr (hab ▸ hr)
    · obtain ⟨fs, rfl⟩ := eq_document hr
      obtain ⟨gs, rfl⟩ := eq_document (hab ▸ hr)
      exact orderFields_swap fs gs
    · obtain ⟨as, rfl⟩ := eq_array hr
      obtain ⟨bs, rfl⟩ := eq_array (hab ▸ hr)
      exact orderItems_swap as bs
    · obtain ⟨k, as, rfl⟩ := eq_binary hr
      obtain ⟨l, bs, rfl⟩ := eq_binary (hab ▸ hr)
      exact compareBytes_swap as bs
    · obtain ⟨x, rfl⟩ := eq_bool hr
      obtain ⟨y, rfl⟩ := eq_bool (hab ▸ hr)
      cases x <;> cases y <;> rfl
    · obtain ⟨x, rfl⟩ := eq_dateTime hr
      obtain ⟨y, rfl⟩ := eq_dateTime (hab ▸ hr)
      exact (Std.OrientedCmp.eq_swap : compare y.toInt x.toInt = (compare x.toInt y.toInt).swap)
  · cases hc : compare a.rank b.rank with
    | eq => exact absurd (Std.LawfulEqCmp.eq_of_compare hc) hab
    | lt => rfl
    | gt => rfl

theorem orderItems_swap (as bs : List Value) : orderItems bs as = (orderItems as bs).swap := by
  match as, bs with
  | [], [] => rfl
  | [], _ :: _ => rfl
  | _ :: _, [] => rfl
  | a :: as, b :: bs =>
    rw [orderItems, orderItems, Ordering.swap_then, order_swap a b, orderItems_swap as bs]

theorem orderFields_swap (fs gs : List (String × Value)) :
    orderFields gs fs = (orderFields fs gs).swap := by
  match fs, gs with
  | [], [] => rfl
  | [], _ :: _ => rfl
  | _ :: _, [] => rfl
  | (k, a) :: fs, (l, b) :: gs =>
    have hkey : compare l k = (compare k l).swap := Std.OrientedCmp.eq_swap
    rw [orderFields, orderFields, Ordering.swap_then, Ordering.swap_then, hkey, order_swap a b,
      orderFields_swap fs gs]

end

theorem order_self (a : Value) : a.order a = .eq := eq_of_eq_swap (order_swap a a)

mutual

/-- **The order of plain values is transitive.** -/
theorem order_chained (a b c : Value) (ha : a.isPlain = true) (hb : b.isPlain = true)
    (hc : c.isPlain = true) : Chained (a.order b) (b.order c) (a.order c) := by
  rw [order_eq a b, order_eq b c, order_eq a c]
  refine (Chained.of_transCmp a.rank b.rank c.rank).then_ fun hab hbc _ => ?_
  have hab : a.rank = b.rank := Std.LawfulEqCmp.eq_of_compare hab
  have hbc : b.rank = c.rank := Std.LawfulEqCmp.eq_of_compare hbc
  have hac : a.rank = c.rank := hab.trans hbc
  rcases a.rank_cases with hr | hr | hr | hr | hr | hr | hr | hr
  · rw [orderWithin_of_unordered hab hr, orderWithin_of_unordered hbc (hab ▸ hr),
      orderWithin_of_unordered hac hr]
    exact Chained.of_eq
  · obtain ⟨x, hx, hxn⟩ := number?_eq_some hr ha
    obtain ⟨y, hy, hyn⟩ := number?_eq_some (hab ▸ hr) hb
    obtain ⟨z, hz, hzn⟩ := number?_eq_some (hac ▸ hr) hc
    rw [orderWithin_of_numbers hx hy, orderWithin_of_numbers hy hz, orderWithin_of_numbers hx hz]
    exact Double.Point.order_chained hxn hyn hzn
  · obtain ⟨s, rfl⟩ := eq_string hr ha
    obtain ⟨t, rfl⟩ := eq_string (hab ▸ hr) hb
    obtain ⟨u, rfl⟩ := eq_string (hac ▸ hr) hc
    exact Chained.of_compare s t u
  · obtain ⟨fs, rfl⟩ := eq_document hr
    obtain ⟨gs, rfl⟩ := eq_document (hab ▸ hr)
    obtain ⟨hs, rfl⟩ := eq_document (hac ▸ hr)
    exact orderFields_chained fs gs hs ha hb hc
  · obtain ⟨as, rfl⟩ := eq_array hr
    obtain ⟨bs, rfl⟩ := eq_array (hab ▸ hr)
    obtain ⟨cs, rfl⟩ := eq_array (hac ▸ hr)
    exact orderItems_chained as bs cs ha hb hc
  · obtain ⟨k, as, rfl⟩ := eq_binary hr
    obtain ⟨l, bs, rfl⟩ := eq_binary (hab ▸ hr)
    obtain ⟨m, cs, rfl⟩ := eq_binary (hac ▸ hr)
    exact compareBytes_chained as bs cs
  · obtain ⟨x, rfl⟩ := eq_bool hr
    obtain ⟨y, rfl⟩ := eq_bool (hab ▸ hr)
    obtain ⟨z, rfl⟩ := eq_bool (hac ▸ hr)
    cases x <;> cases y <;> cases z <;> simp [Chained, orderWithin, orderScalars, orderBools]
  · obtain ⟨x, rfl⟩ := eq_dateTime hr
    obtain ⟨y, rfl⟩ := eq_dateTime (hab ▸ hr)
    obtain ⟨z, rfl⟩ := eq_dateTime (hac ▸ hr)
    exact Chained.of_compare x.toInt y.toInt z.toInt

theorem orderItems_chained (as bs cs : List Value) (ha : itemsArePlain as = true)
    (hb : itemsArePlain bs = true) (hc : itemsArePlain cs = true) :
    Chained (orderItems as bs) (orderItems bs cs) (orderItems as cs) := by
  match as, bs, cs with
  | [], [], [] => exact Chained.of_eq
  | [], [], _ :: _ => simp [Chained, orderItems]
  | [], _ :: _, [] => simp [Chained, orderItems]
  | [], _ :: _, _ :: _ => simp [Chained, orderItems]
  | _ :: _, [], _ => simp [Chained, orderItems]
  | _ :: _, _ :: _, [] => simp [Chained, orderItems]
  | a :: as, b :: bs, c :: cs =>
    rw [itemsArePlain, Bool.and_eq_true] at ha hb hc
    exact (order_chained a b c ha.1 hb.1 hc.1).then_ fun _ _ _ =>
      orderItems_chained as bs cs ha.2 hb.2 hc.2

theorem orderFields_chained (fs gs hs : List (String × Value)) (hf : fieldsArePlain fs = true)
    (hg : fieldsArePlain gs = true) (hh : fieldsArePlain hs = true) :
    Chained (orderFields fs gs) (orderFields gs hs) (orderFields fs hs) := by
  match fs, gs, hs with
  | [], [], [] => exact Chained.of_eq
  | [], [], _ :: _ => simp [Chained, orderFields]
  | [], _ :: _, [] => simp [Chained, orderFields]
  | [], _ :: _, _ :: _ => simp [Chained, orderFields]
  | _ :: _, [], _ => simp [Chained, orderFields]
  | _ :: _, _ :: _, [] => simp [Chained, orderFields]
  | (k, a) :: fs, (l, b) :: gs, (m, c) :: hs =>
    rw [fieldsArePlain, Bool.and_eq_true] at hf hg hh
    refine ((Chained.of_transCmp k l m).then_ fun _ _ _ => ?_).then_ fun _ _ _ => ?_
    · exact order_chained a b c hf.1 hg.1 hh.1
    · exact orderFields_chained fs gs hs hf.2 hg.2 hh.2

end

end Value

end Registrar
