import Registrar.Double.Basic
import Mathlib.Tactic.Ring
import Mathlib.Tactic.SplitIfs

/-!
# Integers as doubles

A double has 53 binary places. An integer with more of them is read as the nearest one that has
not, a tie going to the even neighbour. So integers never change their order when they are read as
doubles, but some become equal, and the last places are lost when such a number is read back.

* `nearestNat`, `nearest`: the number that is read for a number.
* `point_ofInt_eq`: the double of an integer denotes the nearest one.
* `nearest_mono`: the order is kept.
* `nearest_eq_self_iff`: which integers are read as they are.
* `lt_of_nearest_eq`: integers that become equal have more than 53 places.
-/

namespace Registrar.Double

/-! ### Rounding -/

theorem log2_mul_two_pow {m : Nat} (hm : m ≠ 0) (k : Nat) : (m * 2 ^ k).log2 = m.log2 + k := by
  have hpos := Nat.two_pow_pos k
  rw [Nat.log2_eq_iff (Nat.mul_ne_zero hm hpos.ne')]
  constructor
  · rw [pow_add]
    exact Nat.mul_le_mul_right _ (Nat.log2_self_le hm)
  · rw [show m.log2 + k + 1 = (m.log2 + 1) + k by omega, pow_add]
    exact Nat.mul_lt_mul_of_pos_right Nat.lt_log2_self hpos

/-- The places of the unit. -/
def unitShift : Nat := 1074

theorem one_eq : one = 2 ^ unitShift :=
  (Nat.shiftLeft_eq 1 unitShift).trans (Nat.one_mul _)

theorem one_pos : 0 < one := by
  rw [one_eq]
  exact Nat.two_pow_pos _

theorem roundEven_of_dvd (q : Nat) {den : Nat} (h : 0 < den) : roundEven (q * den) den = q := by
  simp only [roundEven, Nat.mul_mod_left, Nat.mul_div_cancel _ h]
  rw [if_pos (by omega)]

theorem roundEven_cases (num den : Nat) :
    roundEven num den = num / den ∨ roundEven num den = num / den + 1 := by
  simp only [roundEven]
  split
  · exact .inl rfl
  · split
    · exact .inr rfl
    · omega

/-- **Rounding keeps the order.** -/
theorem roundEven_mono {a b den : Nat} (h : a ≤ b) : roundEven a den ≤ roundEven b den := by
  have hquotient : a / den ≤ b / den := Nat.div_le_div_right h
  by_cases hsame : a / den = b / den
  · -- Between the same neighbours it is the rest that decides.
    have hrest : a % den ≤ b % den := by
      have ha := Nat.div_add_mod a den
      have hb := Nat.div_add_mod b den
      rw [hsame] at ha
      omega
    simp only [roundEven, hsame]
    split_ifs <;> omega
  · have ha := roundEven_cases a den
    have hb := roundEven_cases b den
    omega

theorem roundEven_mul_right (a b : Nat) {c : Nat} (hc : 0 < c) :
    roundEven (a * c) (b * c) = roundEven a b := by
  have hless : 2 * (a % b * c) < b * c ↔ 2 * (a % b) < b := by
    rw [← Nat.mul_assoc]
    exact Nat.mul_lt_mul_right hc
  have hmore : b * c < 2 * (a % b * c) ↔ b < 2 * (a % b) := by
    rw [← Nat.mul_assoc]
    exact Nat.mul_lt_mul_right hc
  simp only [roundEven, Nat.mul_div_mul_right _ _ hc, Nat.mul_mod_mul_right, hless, hmore]

/-! ### The nearest number of 53 places -/

/-- How many places a number has beyond 53. -/
def lostPlaces (m : Nat) : Nat := m.log2 - 52

/-- **The number that is read for a natural number.** -/
def nearestNat (m : Nat) : Nat := roundEven m (2 ^ lostPlaces m) * 2 ^ lostPlaces m

/-- **The number that is read for an integer.** -/
def nearest (n : Int) : Int := if n < 0 then -(nearestNat n.natAbs : Int) else nearestNat n.natAbs

theorem lostPlaces_of_lt {m : Nat} (h : m < 2 ^ 53) : lostPlaces m = 0 := by
  by_cases hz : m = 0
  · subst hz
    rfl
  · have := (Nat.log2_lt hz).mpr h
    rw [lostPlaces]
    omega

/-- **Numbers of 53 places** are read as they are. -/
theorem nearestNat_of_dvd {m : Nat} (h : 2 ^ lostPlaces m ∣ m) : nearestNat m = m := by
  rw [nearestNat]
  have hpos := Nat.two_pow_pos (lostPlaces m)
  generalize 2 ^ lostPlaces m = step at h hpos
  obtain ⟨q, rfl⟩ := h
  rw [Nat.mul_comm step q, roundEven_of_dvd q hpos]

theorem nearestNat_eq_self_iff {m : Nat} : nearestNat m = m ↔ 2 ^ lostPlaces m ∣ m := by
  constructor
  · intro h
    rw [nearestNat] at h
    exact ⟨_, (Nat.mul_comm _ _).trans h |>.symm⟩
  · exact nearestNat_of_dvd

theorem nearestNat_of_lt {m : Nat} (h : m < 2 ^ 53) : nearestNat m = m := by
  refine nearestNat_of_dvd ?_
  rw [lostPlaces_of_lt h]
  exact one_dvd _

/-- A long number has its first 53 places before the point when it is rounded. -/
theorem significand_bounds {m : Nat} (h : 2 ^ 52 ≤ m) :
    2 ^ 52 ≤ roundEven m (2 ^ lostPlaces m) ∧ roundEven m (2 ^ lostPlaces m) ≤ 2 ^ 53 := by
  have hz : m ≠ 0 := by
    have := Nat.two_pow_pos 52
    omega
  have hlog : 52 ≤ m.log2 := (Nat.le_log2 hz).mpr h
  have hsplit : 52 + lostPlaces m = m.log2 := by
    rw [lostPlaces]
    omega
  have hlow : 2 ^ 52 ≤ m / 2 ^ lostPlaces m := by
    rw [Nat.le_div_iff_mul_le (Nat.two_pow_pos _), ← pow_add, hsplit]
    exact Nat.log2_self_le hz
  have hhigh : m / 2 ^ lostPlaces m < 2 ^ 53 := by
    rw [Nat.div_lt_iff_lt_mul (Nat.two_pow_pos _), ← pow_add,
      show 53 + lostPlaces m = m.log2 + 1 by omega]
    exact Nat.lt_log2_self
  have := roundEven_cases m (2 ^ lostPlaces m)
  omega

theorem nearestNat_bounds {m : Nat} (hm : m ≠ 0) :
    2 ^ m.log2 ≤ nearestNat m ∧ nearestNat m ≤ 2 ^ (m.log2 + 1) := by
  by_cases hsmall : m < 2 ^ 53
  · rw [nearestNat_of_lt hsmall]
    exact ⟨Nat.log2_self_le hm, Nat.lt_log2_self.le⟩
  · obtain ⟨hlow, hhigh⟩ := significand_bounds (m := m) (by omega)
    have hlog : 53 ≤ m.log2 := (Nat.le_log2 hm).mpr (by omega)
    have hsplit : m.log2 = 52 + lostPlaces m := by
      rw [lostPlaces]
      omega
    constructor
    · calc 2 ^ m.log2 = 2 ^ 52 * 2 ^ lostPlaces m := by rw [hsplit, pow_add]
        _ ≤ nearestNat m := Nat.mul_le_mul_right _ hlow
    · calc nearestNat m ≤ 2 ^ 53 * 2 ^ lostPlaces m := Nat.mul_le_mul_right _ hhigh
        _ = 2 ^ (m.log2 + 1) := by
          rw [← pow_add]
          congr 1
          omega

theorem nearestNat_mono {a b : Nat} (h : a ≤ b) : nearestNat a ≤ nearestNat b := by
  by_cases ha : a = 0
  · subst ha
    rw [nearestNat_of_lt (by decide)]
    exact Nat.zero_le _
  have hb : b ≠ 0 := by omega
  have hlog : a.log2 ≤ b.log2 := (Nat.le_log2 hb).mpr ((Nat.log2_self_le ha).trans h)
  by_cases hsame : a.log2 = b.log2
  · have hlost : lostPlaces a = lostPlaces b := by rw [lostPlaces, lostPlaces, hsame]
    rw [nearestNat, nearestNat, hlost]
    exact Nat.mul_le_mul_right _ (roundEven_mono h)
  · -- A power of two stands between numbers of different length.
    calc nearestNat a ≤ 2 ^ (a.log2 + 1) := (nearestNat_bounds ha).2
      _ ≤ 2 ^ b.log2 := Nat.pow_le_pow_right (by decide) (by omega)
      _ ≤ nearestNat b := (nearestNat_bounds hb).1

/-! ### Integers -/

theorem nearest_of_nonneg {n : Int} (h : 0 ≤ n) : nearest n = nearestNat n.natAbs := by
  rw [nearest, if_neg (by omega)]

theorem nearest_of_neg {n : Int} (h : n < 0) : nearest n = -(nearestNat n.natAbs : Int) := by
  rw [nearest, if_pos h]

/-- **The order is kept** when integers are read as doubles. -/
theorem nearest_mono {m n : Int} (h : m ≤ n) : nearest m ≤ nearest n := by
  by_cases hm : m < 0
  · rw [nearest_of_neg hm]
    by_cases hn : n < 0
    · rw [nearest_of_neg hn]
      have := nearestNat_mono (a := n.natAbs) (b := m.natAbs) (by omega)
      omega
    · rw [nearest_of_nonneg (by omega)]
      omega
  · rw [nearest_of_nonneg (by omega), nearest_of_nonneg (by omega)]
    have := nearestNat_mono (a := m.natAbs) (b := n.natAbs) (by omega)
    omega

/-- **The integers that are read as they are**: those of 53 places and zeros after them. -/
theorem nearest_eq_self_iff {n : Int} : nearest n = n ↔ 2 ^ lostPlaces n.natAbs ∣ n.natAbs := by
  rw [← nearestNat_eq_self_iff, nearest]
  split <;> omega

theorem nearest_of_natAbs_lt {n : Int} (h : n.natAbs < 2 ^ 53) : nearest n = n := by
  rw [nearest_eq_self_iff, lostPlaces_of_lt h]
  exact one_dvd _

theorem nearest_of_natAbs_le {n : Int} (h : n.natAbs ≤ 2 ^ 53) : nearest n = n := by
  by_cases hlt : n.natAbs < 2 ^ 53
  · exact nearest_of_natAbs_lt hlt
  · have heq : n.natAbs = 2 ^ 53 := by omega
    rw [nearest_eq_self_iff, heq]
    decide +kernel

/-- **Integers become equal** only beyond 53 places. -/
theorem lt_of_nearest_eq {m n : Int} (h : nearest m = nearest n) (hne : m ≠ n) :
    2 ^ 53 ≤ m.natAbs ∧ 2 ^ 53 ≤ n.natAbs := by
  have hbound : ∀ {a b : Int}, nearest a = nearest b → a ≠ b → 2 ^ 53 ≤ a.natAbs := by
    intro a b hab hne
    by_contra hlt
    have ha : nearest a = a := nearest_of_natAbs_lt (by omega)
    by_cases hb : b.natAbs ≤ 2 ^ 53
    · rw [ha, nearest_of_natAbs_le hb] at hab
      exact hne hab
    · -- A longer number is not read as a short one.
      rcases Int.lt_or_lt_of_ne hne with hless | hmore
      · have hmono := nearest_mono (m := 2 ^ 53) (n := b) (by omega)
        rw [nearest_of_natAbs_le (n := 2 ^ 53) (by decide)] at hmono
        omega
      · have hmono := nearest_mono (m := b) (n := -2 ^ 53) (by omega)
        rw [nearest_of_natAbs_le (n := -2 ^ 53) (by decide)] at hmono
        omega
  exact ⟨hbound h hne, hbound h.symm hne.symm⟩

/-! ### What the double of an integer denotes -/

/-- **A built double is no NaN.** -/
theorem isNaN_ofWord (negative : Bool) (m s : Nat) : (ofWord negative m s).isNaN = false := by
  have hbits : (ofWord negative m s).bits.toNat = (if negative then 0x8000000000000000 else 0) +
      min (m + s * 0x10000000000000) (2047 * 0x10000000000000) := by
    simp only [ofWord, fractionSize, signBit]
    cases negative <;> simp <;> omega
  have hfrac : (ofWord negative m s).exponentField = 2047 → (ofWord negative m s).fraction = 0 := by
    simp only [exponentField, fraction, hbits, fractionSize]
    cases negative <;> simp <;> omega
  rw [isNaN, point]
  split
  · rename_i h
    rw [if_pos (hfrac h)]
    split <;> rfl
  · rfl

theorem isNaN_ofInt (n : Int) : (ofInt n).isNaN = false := isNaN_ofWord _ _ _

/-- A significand that reaches 2^53 carries. -/
theorem ofWord_carry (negative : Bool) (s : Nat) :
    ofWord negative (2 * fractionSize) s = ofWord negative fractionSize (s + 1) := by
  have hsum : 2 * fractionSize + s * fractionSize = fractionSize + (s + 1) * fractionSize := by
    ring
  rw [ofWord, ofWord, hsum]

theorem point_ofWord_of_le {negative : Bool} {m s : Nat} (hm : m ≤ 2 * fractionSize) (hs : s ≤ 2044)
    (hnorm : s = 0 ∨ fractionSize ≤ m) :
    (ofWord negative m s).point =
      .finite (if negative then -((m <<< s : Nat) : Int) else (m <<< s : Nat)) := by
  by_cases hlt : m < 2 * fractionSize
  · exact point_ofWord hlt (by omega) hnorm
  · obtain rfl : m = 2 * fractionSize := by omega
    have hshift : (2 * fractionSize) <<< s = fractionSize <<< (s + 1) := by
      rw [Nat.shiftLeft_eq, Nat.shiftLeft_eq, pow_succ]
      ring
    rw [ofWord_carry, hshift]
    exact point_ofWord (by decide) (by omega) (.inr le_rfl)

/-- **The double of an integer** of 64 bits denotes the nearest one. -/
theorem point_ofInt_eq {n : Int} (h : n.natAbs ≤ 2 ^ 63) :
    (ofInt n).point = .finite (nearest n * one) := by
  generalize hm : n.natAbs = m at h
  have hsign : (if decide (n < 0) then -((nearestNat m * one : Nat) : Int)
      else (nearestNat m * one : Nat)) = nearest n * one := by
    rw [nearest, hm]
    push_cast
    by_cases hn : n < 0
    · rw [if_pos (by simpa using hn), if_pos hn]
      ring
    · rw [if_neg (by simpa using hn), if_neg hn]
  rw [← hsign, ofInt, ofRatio, hm, Nat.div_one]
  by_cases hz : m = 0
  · subst hz
    rw [Nat.zero_mul, Nat.log2_zero]
    exact point_ofWord (by decide) (by decide) (.inl rfl)
  · have hlog : m.log2 < 64 := (Nat.log2_lt hz).mpr (by omega)
    have hshift : (m * one).log2 - 52 = m.log2 + 1022 := by
      rw [one_eq, log2_mul_two_pow hz, unitShift]
      omega
    rw [hshift, Nat.one_shiftLeft]
    have hlow := Nat.log2_self_le hz
    by_cases hsmall : m < 2 ^ 53
    · -- A short number is moved up to 53 places and not rounded.
      have hshort : m.log2 < 53 := (Nat.log2_lt hz).mpr hsmall
      have hscaled : m * one = m * 2 ^ (52 - m.log2) * 2 ^ (m.log2 + 1022) := by
        rw [one_eq, Nat.mul_assoc, ← pow_add,
          show 52 - m.log2 + (m.log2 + 1022) = unitShift by rw [unitShift]; omega]
      have hsize : 2 ^ m.log2 * 2 ^ (52 - m.log2) = fractionSize := by
        rw [← pow_add, Nat.add_sub_cancel' (by omega)]
        rfl
      have hhigh : m * 2 ^ (52 - m.log2) < 2 * fractionSize := by
        rw [← hsize, ← Nat.mul_assoc, ← pow_succ']
        exact Nat.mul_lt_mul_of_pos_right Nat.lt_log2_self (Nat.two_pow_pos _)
      rw [nearestNat_of_lt hsmall, hscaled, roundEven_of_dvd _ (Nat.two_pow_pos _),
        point_ofWord hhigh (by omega) (.inr (hsize ▸ Nat.mul_le_mul_right _ hlow)),
        Nat.shiftLeft_eq]
    · -- A long one is rounded there, whatever unit it is counted in.
      have hlong : 53 ≤ m.log2 := (Nat.le_log2 hz).mpr (by omega)
      have hplaces : m.log2 + 1022 = lostPlaces m + unitShift := by
        rw [lostPlaces, unitShift]
        omega
      obtain ⟨hleast, hmost⟩ := significand_bounds (m := m) (by omega)
      rw [hplaces, one_eq, pow_add, roundEven_mul_right _ _ (Nat.two_pow_pos _),
        point_ofWord_of_le (by rw [fractionSize]; omega)
          (by rw [lostPlaces, unitShift]; omega) (.inr (by rw [fractionSize]; omega)),
        Nat.shiftLeft_eq, pow_add, ← Nat.mul_assoc, ← nearestNat]

theorem natAbs_toInt_le (n : Int64) : n.toInt.natAbs ≤ 2 ^ 63 := by
  have := n.le_toInt
  have := n.toInt_lt
  omega

/-- **Doubles of integers** are compared like the nearest integers. -/
theorem compare?_ofInt {m n : Int} (hm : m.natAbs ≤ 2 ^ 63) (hn : n.natAbs ≤ 2 ^ 63) :
    (ofInt m).compare? (ofInt n) = some (compare (nearest m) (nearest n)) := by
  have hpos : (0 : Int) < one := Int.natCast_pos.mpr one_pos
  rw [compare?, point_ofInt_eq hm, point_ofInt_eq hn, Point.compare?, Option.some_inj]
  rcases lt_trichotomy (nearest m) (nearest n) with h | h | h
  · rw [compare_lt_iff_lt.mpr h, compare_lt_iff_lt.mpr (Int.mul_lt_mul_of_pos_right h hpos)]
  · rw [h, compare_eq_iff_eq.mpr rfl, compare_eq_iff_eq.mpr rfl]
  · rw [compare_gt_iff_gt.mpr h, compare_gt_iff_gt.mpr (Int.mul_lt_mul_of_pos_right h hpos)]

/-- **Doubles of integers are equal** just if the nearest integers are. -/
theorem same_ofInt_iff {m n : Int} (hm : m.natAbs ≤ 2 ^ 63) (hn : n.natAbs ≤ 2 ^ 63) :
    (ofInt m).same (ofInt n) = true ↔ nearest m = nearest n := by
  rw [same, compare?_ofInt hm hn, beq_iff_eq, Option.some_inj, compare_eq_iff_eq]

/-- **What is read back** is the nearest integer, kept within the 64-bit integers. -/
theorem toInt64_ofInt_eq {n : Int} (h : n.natAbs ≤ 2 ^ 63) :
    (ofInt n).toInt64 = max minInt64 (min maxInt64 (nearest n)) := by
  have hpos : (one : Int) ≠ 0 := Int.natCast_ne_zero.mpr one_pos.ne'
  rw [toInt64, point_ofInt_eq h]
  dsimp only
  rw [Int.mul_tdiv_cancel _ hpos]

end Registrar.Double
