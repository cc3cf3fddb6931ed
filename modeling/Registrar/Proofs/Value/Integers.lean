import Registrar.Filter.Evaluate
import Registrar.Proofs.Change.Converging
import Registrar.Proofs.Value.Ordering

/-!
# Integers that are compared

Integers of 64 bits are compared in three places: when a change is detected, when a filter is
evaluated, and when values are sorted. All three compare them as doubles, hence by the nearest
numbers of 53 places. So the comparison is exact just if the two numbers are equal or have
different nearest ones, and numbers of 53 places always are compared exactly.

* `ComparedAs`: the outcome of a comparison in all three places.
* `comparedAs_nearest`: it is the outcome for the nearest numbers.
* `comparedAs_iff`: when it is the outcome for the numbers themselves.
-/

namespace Registrar

open Double

theorem Double.compare_nearest {m n : Int} (h : nearest m = nearest n → m = n) :
    compare (nearest m) (nearest n) = compare m n := by
  rcases lt_trichotomy m n with hlt | heq | hgt
  · have hle := nearest_mono hlt.le
    have hne : nearest m ≠ nearest n := fun he => hlt.ne (h he)
    rw [compare_lt_iff_lt.mpr hlt, compare_lt_iff_lt.mpr (lt_of_le_of_ne hle hne)]
  · rw [heq, compare_eq_iff_eq.mpr rfl, compare_eq_iff_eq.mpr rfl]
  · have hle := nearest_mono hgt.le
    have hne : nearest n ≠ nearest m := fun he => hgt.ne' (h he.symm)
    rw [compare_gt_iff_gt.mpr hgt, compare_gt_iff_gt.mpr (lt_of_le_of_ne hle hne)]

namespace Value

variable {a b : Int64}

/-! ### Three comparisons -/

theorem int64_agrees_iff : (Value.int64 a).agrees (.int64 b) = true ↔
    compare (nearest a.toInt) (nearest b.toInt) = .eq := by
  rw [agrees_scalar rfl rfl, agreesScalar, number?, number?, compare_eq_iff_eq]
  exact same_ofInt_iff (natAbs_toInt_le a) (natAbs_toInt_le b)

theorem int64_order (a b : Int64) :
    (Value.int64 a).order (.int64 b) = compare (nearest a.toInt) (nearest b.toInt) := by
  have horder : (Value.int64 a).order (.int64 b) =
      ((Double.ofInt a.toInt).compare? (Double.ofInt b.toInt)).getD .eq := by
    rw [order_eq]
    rfl
  rw [horder, compare?_ofInt (natAbs_toInt_le a) (natAbs_toInt_le b)]
  rfl

theorem int64_orderTo? (a b : Int64) : (Value.int64 a).orderTo? (.int64 b) =
    some (compare (nearest a.toInt) (nearest b.toInt)) :=
  compare?_ofInt (natAbs_toInt_le a) (natAbs_toInt_le b)

theorem int64_equalTo_iff : (Value.int64 a).equalTo (.int64 b) = true ↔
    compare (nearest a.toInt) (nearest b.toInt) = .eq := by
  have hequal : (Value.int64 a).equalTo (.int64 b) =
      (Double.ofInt a.toInt).same (Double.ofInt b.toInt) := by
    simp [equalTo, scalarEqualTo, number?]
  rw [hequal, compare_eq_iff_eq]
  exact same_ofInt_iff (natAbs_toInt_le a) (natAbs_toInt_le b)

end Value

/-- A single value without parts that a path reaches is the only candidate. -/
theorem Document.candidates_of_reached {d : Document} {path : String} {v : Value}
    (h : d.reached path = [v]) (ha : v.array? = none) : d.candidates path = [v] := by
  rw [candidates, h]
  cases v <;> first | rfl | cases ha

/-- **The outcome of comparing two integers**, wherever they are compared. A difference is empty
just if the outcome is equality, where the field holds the two integers and the other fields agree;
a filter for equal, greater or less values holds of a document in which the path reaches the first
integer, with the second as its operand, just if this is the outcome; and the order of values
gives it. -/
structure ComparedAs (a b : Int64) (o : Ordering) : Prop where
  diff : ∀ (s : Schema) (dependencies : Bool) (existing proposed : Document),
    ∀ f ∈ s.fields, f.role = .data → existing.valueOrNull f.name = .int64 a →
    proposed.valueOrNull f.name = .int64 b →
    (∀ g ∈ s.fields, g.name ≠ f.name →
      (existing.valueOrNull g.name).agrees (proposed.valueOrNull g.name) = true) →
    (s.diff dependencies existing proposed = [] ↔ o = .eq)
  eq : ∀ (d : Document) (path : String), d.reached path = [.int64 a] →
    ((Filter.compare path .eq (.int64 b)).holds d = true ↔ o = .eq)
  gt : ∀ (d : Document) (path : String), d.reached path = [.int64 a] →
    ((Filter.compare path .gt (.int64 b)).holds d = true ↔ o = .gt)
  lt : ∀ (d : Document) (path : String), d.reached path = [.int64 a] →
    ((Filter.compare path .lt (.int64 b)).holds d = true ↔ o = .lt)
  order : (Value.int64 a).order (.int64 b) = o

/-- **Integers are compared by the nearest numbers** of 53 places. -/
theorem comparedAs_nearest (a b : Int64) :
    ComparedAs a b (compare (nearest a.toInt) (nearest b.toInt)) where
  diff s dependencies existing proposed f hf hrole ha hb hothers := by
    rw [Schema.diff_eq_nil_iff, ← Value.int64_agrees_iff, ← ha, ← hb]
    constructor
    · intro h
      exact h f (List.mem_filter.mpr ⟨hf, by rw [hrole]; rfl⟩)
    · intro h g hg
      by_cases hname : g.name = f.name
      · rwa [Schema.agreesIn, hname]
      · exact hothers g (List.mem_filter.mp hg).1 hname
  eq d path h := by
    rw [Filter.holds, Document.candidates_of_reached h rfl, Comparison.holds, List.any_cons,
      List.any_nil, Bool.or_false]
    exact Value.int64_equalTo_iff
  gt d path h := by
    rw [Filter.holds, Document.candidates_of_reached h rfl, Comparison.holds, List.any_cons,
      List.any_nil, Bool.or_false, Value.int64_orderTo?]
    cases compare (nearest a.toInt) (nearest b.toInt) <;> decide
  lt d path h := by
    rw [Filter.holds, Document.candidates_of_reached h rfl, Comparison.holds, List.any_cons,
      List.any_nil, Bool.or_false, Value.int64_orderTo?]
    cases compare (nearest a.toInt) (nearest b.toInt) <;> decide
  order := Value.int64_order a b

/-- **Integers are compared exactly** just if they are equal or have different nearest numbers of
53 places. Otherwise both of them are beyond 2^53, and they are compared as equal. -/
theorem comparedAs_iff (a b : Int64) :
    ComparedAs a b (compare (nearest a.toInt) (nearest b.toInt)) ∧
    (ComparedAs a b (compare a.toInt b.toInt) ↔
      (nearest a.toInt = nearest b.toInt → a = b)) ∧
    (nearest a.toInt = nearest b.toInt → a ≠ b →
      2 ^ 53 ≤ a.toInt.natAbs ∧ 2 ^ 53 ≤ b.toInt.natAbs) := by
  have hnearest := comparedAs_nearest a b
  refine ⟨hnearest, ⟨fun h he => ?_, fun h => ?_⟩, fun he hne => ?_⟩
  · have hsame := h.order.symm.trans hnearest.order
    rw [compare_eq_iff_eq.mpr he, compare_eq_iff_eq] at hsame
    exact Int64.toInt_inj.mp hsame
  · rw [compare_nearest fun he => congrArg Int64.toInt (h he)] at hnearest
    exact hnearest
  · exact lt_of_nearest_eq he fun h => hne (Int64.toInt_inj.mp h)

/-- **The first two numbers that are taken for one.** -/
theorem comparedAs_equal : ∃ a b : Int64, a.toInt = 2 ^ 53 ∧ b.toInt = 2 ^ 53 + 1 ∧
    ComparedAs a b .eq ∧ ¬ ComparedAs a b (compare a.toInt b.toInt) := by
  have ha : (9007199254740992 : Int64).toInt = 2 ^ 53 := by decide
  have hb : (9007199254740993 : Int64).toInt = 2 ^ 53 + 1 := by decide
  have hone : nearest (2 ^ 53) = nearest (2 ^ 53 + 1) := by decide +kernel
  obtain ⟨hequal, hexact, -⟩ := comparedAs_iff 9007199254740992 9007199254740993
  rw [ha, hb, hone, compare_eq_iff_eq.mpr rfl] at hequal
  refine ⟨_, _, ha, hb, hequal, fun h => ?_⟩
  have heq := hexact.mp h (by rw [ha, hb, hone])
  exact absurd heq (by decide)

end Registrar
