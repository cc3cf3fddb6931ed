import Registrar.Proofs.Double.Rounding

/-!
# Whole numbers as doubles

A whole number below 2^53 is a double itself, so nothing is lost when it is read as one: equal
doubles come from equal numbers, and the number comes back. Versions are compared and counted up
in this way.

* `point_ofInt`: the point that a small number denotes.
* `toInt64_ofInt`, `same_ofInt`: reading it back, and comparing two of them.
* `same_iff`: when doubles are equal.
* `toInt64_eq_of_same`: equal doubles have one whole part.
-/

namespace Registrar.Double

/-- Below this bound every whole number is a double. -/
def wholeBound : Nat := 2 ^ 53

/-- **A small whole number denotes itself.** -/
theorem point_ofInt {n : Int} (h : n.natAbs < wholeBound) :
    (ofInt n).point = .finite (n * one) := by
  rw [wholeBound] at h
  rw [point_ofInt_eq (by omega), nearest_of_natAbs_lt h]

/-- **A small whole number is read back.** -/
theorem toInt64_ofInt {n : Int} (h : n.natAbs < wholeBound) : (ofInt n).toInt64 = n := by
  have hpos : (one : Int) ≠ 0 := Int.natCast_ne_zero.mpr one_pos.ne'
  rw [toInt64, point_ofInt h]
  dsimp only
  rw [Int.mul_tdiv_cancel _ hpos, minInt64, maxInt64]
  rw [wholeBound] at h
  omega

theorem same_ofInt {m n : Int} (hm : m.natAbs < wholeBound) (hn : n.natAbs < wholeBound) :
    (ofInt m).same (ofInt n) = true ↔ m = n := by
  have hpos : (one : Int) ≠ 0 := Int.natCast_ne_zero.mpr one_pos.ne'
  rw [same, compare?, point_ofInt hm, point_ofInt hn, Point.compare?, beq_iff_eq,
    Option.some.injEq, Std.LawfulEqCmp.compare_eq_iff_eq]
  constructor
  · exact Int.eq_of_mul_eq_mul_right hpos
  · exact congrArg (· * (one : Int))

/-- **Doubles are equal** when they denote one point of the line. A NaN denotes none. -/
theorem same_iff {a b : Double} : a.same b = true ↔ a.point = b.point ∧ a.point ≠ .nan := by
  rw [same, beq_iff_eq, compare?]
  cases a.point with
  | finite x =>
    cases b.point with
    | finite y => simp [Point.compare?]
    | _ => simp [Point.compare?]
  | _ => cases b.point <;> simp [Point.compare?]

theorem same_comm (a b : Double) : a.same b = b.same a := by
  rw [Bool.eq_iff_iff, same_iff, same_iff]
  constructor
  · rintro ⟨hpoint, hnan⟩
    exact ⟨hpoint.symm, hpoint ▸ hnan⟩
  · rintro ⟨hpoint, hnan⟩
    exact ⟨hpoint.symm, hpoint ▸ hnan⟩

theorem point_eq_of_same {a b : Double} (h : a.same b = true) : a.point = b.point :=
  (same_iff.mp h).1

theorem toInt64_eq_of_same {a b : Double} (h : a.same b = true) : a.toInt64 = b.toInt64 := by
  rw [toInt64, toInt64, point_eq_of_same h]

end Registrar.Double
