import Registrar.Double.Shortest
import Registrar.Proofs.Double.Rounding

/-!
# What reads back as a double

The quotients around a finite double that lie nearer to it than to its neighbours are rounded to
it, and so are the two halfway to the neighbours if its significand is even. A quotient below a
double whose significand is the least of its length has one place less before the point; it is
rounded up to a significand that carries.

* `ofWord_self`: a finite double is the word of its significand.
* `roundEven_eq`: which quotients are rounded to a whole number.
* `ofRatio_of_around`: **the quotients that are rounded to a double**.
* `holds_iff_around`: they are the ones in its interval.
-/

namespace Registrar.Double

variable {d : Double}

/-! ### The word of a double -/

/-- **A finite double**: neither infinite nor a NaN. -/
def IsFinite (d : Double) : Prop := d.exponentField ≠ 2047

theorem significand_lt (d : Double) : d.significand < 2 * fractionSize := by
  have hfraction : d.fraction < fractionSize := Nat.mod_lt _ (by decide)
  rw [significand]
  split <;> omega

theorem shift_le (h : d.IsFinite) : d.shift ≤ 2045 := by
  have hfield : d.exponentField < 0x800 := Nat.mod_lt _ (by decide)
  have hfinite : d.exponentField ≠ 2047 := h
  rw [shift]
  omega

theorem fractionSize_le_significand (h : 0 < d.shift) : fractionSize ≤ d.significand := by
  rw [shift] at h
  rw [significand, if_neg (by omega)]
  omega

theorem significand_add_shift (d : Double) :
    d.significand + d.shift * fractionSize = d.exponentField * fractionSize + d.fraction := by
  rw [significand, shift]
  by_cases h : d.exponentField = 0
  · rw [if_pos h, h]
    omega
  · rw [if_neg h, Nat.sub_mul]
    have hle : 1 * fractionSize ≤ d.exponentField * fractionSize :=
      Nat.mul_le_mul_right _ (by omega)
    omega

theorem negative_iff : d.negative = true ↔ 0x8000000000000000 ≤ d.bits.toNat := decide_eq_true_iff

/-- **A finite double is the word of its significand.** -/
theorem ofWord_self (h : d.IsFinite) : ofWord d.negative d.significand d.shift = d := by
  have hfinite : d.bits.toNat / 0x10000000000000 % 0x800 ≠ 2047 := h
  have hsize := d.bits.toNat_lt
  have hsign := @negative_iff d
  have hfields : d.exponentField * fractionSize + d.fraction = d.bits.toNat / 0x10000000000000 %
      0x800 * 0x10000000000000 + d.bits.toNat % 0x10000000000000 := rfl
  rw [ofWord, significand_add_shift, hfields, fractionSize, signBit]
  refine congrArg Double.mk (UInt64.toNat_inj.mp ?_)
  rw [UInt64.toNat_ofNat']
  by_cases hneg : d.negative = true
  · rw [if_pos hneg]
    have := hsign.mp hneg
    omega
  · rw [if_neg hneg]
    have := mt hsign.mpr hneg
    omega

/-! ### Rounding to a whole number -/

/-- **A quotient is rounded to a whole number** from which it is at most one half away, if the
number is even or the quotient is nearer. -/
theorem roundEven_eq {num den m : Nat} (hlow : 2 * (m * den) ≤ 2 * num + den)
    (hhigh : 2 * num ≤ 2 * (m * den) + den)
    (hends : m % 2 = 0 ∨ 2 * (m * den) < 2 * num + den ∧ 2 * num < 2 * (m * den) + den)
    (hden : 0 < den) : roundEven num den = m := by
  have hsplit : num / den * den + num % den = num := Nat.div_add_mod' num den
  have hrest := Nat.mod_lt num hden
  rw [roundEven]
  generalize num / den = q at *
  generalize num % den = r at *
  -- The number is the quotient below, or the next one.
  have hle : q ≤ m := by
    by_contra hlt
    have hnext : (m + 1) * den ≤ q * den := Nat.mul_le_mul_right _ (by omega)
    rw [Nat.succ_mul] at hnext
    omega
  have hge : m ≤ q + 1 := by
    by_contra hlt
    have hnext : (q + 2) * den ≤ m * den := Nat.mul_le_mul_right _ (by omega)
    rw [Nat.add_mul] at hnext
    omega
  obtain rfl | rfl : m = q ∨ m = q + 1 := by omega
  · split_ifs <;> omega
  · have hnext : (q + 1) * den = q * den + den := Nat.succ_mul q den
    split_ifs <;> omega

/-! ### The quotients around a double -/

theorem units_eq (d : Double) : d.units = d.significand * 2 ^ d.shift :=
  Nat.shiftLeft_eq _ _

/-- How far the interval of a double reaches down, in quarters of a place: not as far if the double
is the least of its length. -/
def reach (d : Double) : Nat := if d.significand = fractionSize ∧ 0 < d.shift then 1 else 2

theorem reach_cases (d : Double) :
    d.reach = 1 ∧ d.significand = fractionSize ∧ 0 < d.shift ∨
      d.reach = 2 ∧ (d.significand = fractionSize → d.shift = 0) := by
  rw [reach]
  split
  · rename_i h
    exact .inl ⟨rfl, h⟩
  · rename_i h
    refine .inr ⟨rfl, fun hleast => ?_⟩
    by_contra hpos
    exact h ⟨hleast, by omega⟩

theorem reach_bounds (d : Double) : 0 < d.reach ∧ d.reach ≤ 2 := by
  rcases d.reach_cases with ⟨h, -⟩ | ⟨h, -⟩ <;> omega

theorem readBack_eq (d : Double) : d.readBack = ⟨4 * d.units - d.reach * 2 ^ d.shift, 4 * d.units,
    4 * d.units + 2 * 2 ^ d.shift, decide (d.significand % 2 = 0)⟩ := by
  rw [readBack, reach]
  simp only [Nat.one_shiftLeft]
  by_cases h : d.significand = fractionSize ∧ 0 < d.shift
  · have hliteral : d.significand = 0x10000000000000 ∧ 0 < d.shift := h
    rw [if_pos h, if_pos hliteral, Nat.one_mul]
  · have hliteral : ¬ (d.significand = 0x10000000000000 ∧ 0 < d.shift) := h
    rw [if_neg h, if_neg hliteral]

/-- **What lies around a double**: a quotient of units that is nearer to it than to its neighbours,
or halfway if the significand is even. -/
structure Around (d : Double) (num den : Nat) : Prop where
  low : 4 * (d.units * den) ≤ 4 * num + d.reach * (den * 2 ^ d.shift)
  high : 4 * num ≤ 4 * (d.units * den) + 2 * (den * 2 ^ d.shift)
  ends : d.significand % 2 = 0 ∨
    4 * (d.units * den) < 4 * num + d.reach * (den * 2 ^ d.shift) ∧
      4 * num < 4 * (d.units * den) + 2 * (den * 2 ^ d.shift)

theorem shift_of_log2 {x s : Nat} (hlow : 2 ^ 52 * 2 ^ s ≤ x ∨ s = 0)
    (hhigh : x < 2 ^ 53 * 2 ^ s) : x.log2 - 52 = s := by
  rw [← pow_add] at hlow hhigh
  by_cases hx : x = 0
  · subst hx
    rcases hlow with hlow | hzero
    · exact absurd hlow (by have := Nat.two_pow_pos (52 + s); omega)
    · rw [hzero, Nat.log2_zero]
  · have hlt := (Nat.log2_lt hx).mpr hhigh
    rcases hlow with hlow | hzero
    · have hle := (Nat.le_log2 hx).mpr hlow
      omega
    · omega

theorem shift_of_div {x den s : Nat} (hden : 0 < den)
    (hlow : 0x10000000000000 * (den * 2 ^ s) ≤ x ∨ s = 0)
    (hhigh : x < 0x20000000000000 * (den * 2 ^ s)) : (x / den).log2 - 52 = s := by
  refine shift_of_log2 (hlow.imp_left fun hle => ?_) ?_
  · rw [Nat.le_div_iff_mul_le hden]
    calc 2 ^ 52 * 2 ^ s * den = 0x10000000000000 * (den * 2 ^ s) := by ring
      _ ≤ x := hle
  · rw [Nat.div_lt_iff_lt_mul hden]
    calc x < 0x20000000000000 * (den * 2 ^ s) := hhigh
      _ = 2 ^ 53 * 2 ^ s * den := by ring

/-- **The quotients that are rounded to a double.** -/
theorem ofRatio_of_around (hfinite : d.IsFinite) {n den : Nat} (hden : 0 < den)
    (h : d.Around (n * one) den) : ofRatio d.negative n den = d := by
  obtain ⟨hlow, hhigh, hends⟩ := h
  have hsize := d.significand_lt
  have hword := ofWord_self hfinite
  have hlong := @fractionSize_le_significand d
  have hreach := d.reach_cases
  rw [units_eq] at hlow hhigh hends
  rw [ofRatio]
  generalize n * one = x at *
  generalize d.reach = reach at *
  generalize d.significand = m at *
  generalize d.shift = s at *
  have hmul : m * 2 ^ s * den = m * (den * 2 ^ s) := by ring
  rw [hmul] at hlow hhigh hends
  simp only [fractionSize] at hsize hlong hreach
  by_cases hcase : 0x10000000000000 * (den * 2 ^ s) ≤ x ∨ s = 0
  · -- The quotient has as many places as the double.
    have hstep : 0 < den * 2 ^ s := Nat.mul_pos hden (Nat.two_pow_pos s)
    have hless : (m + 1) * (den * 2 ^ s) ≤ 0x20000000000000 * (den * 2 ^ s) :=
      Nat.mul_le_mul_right _ hsize
    rw [Nat.succ_mul] at hless
    have hshift : (x / den).log2 - 52 = s := shift_of_div hden hcase (by omega)
    have hround : roundEven x (den <<< s) = m := by
      rw [Nat.shiftLeft_eq]
      generalize den * 2 ^ s = step at *
      rcases hreach with ⟨rfl, -⟩ | ⟨rfl, -⟩
      · exact roundEven_eq (by omega) (by omega) (by omega) hstep
      · exact roundEven_eq (by omega) (by omega) (by omega) hstep
    rw [hshift, hround, hword]
  · -- It has one place less: the double is the least of its length, and the quotient below it.
    rw [not_or, Nat.not_le] at hcase
    obtain ⟨hless, hpos⟩ := hcase
    obtain ⟨t, rfl⟩ : ∃ t, s = t + 1 := ⟨s - 1, by omega⟩
    have hhalf : den * 2 ^ (t + 1) = 2 * (den * 2 ^ t) := by ring
    rw [hhalf] at hlow hhigh hends hless
    have hstep : 0 < den * 2 ^ t := Nat.mul_pos hden (Nat.two_pow_pos t)
    obtain ⟨rfl, rfl⟩ : reach = 1 ∧ m = 0x10000000000000 := by
      rcases hreach with ⟨hone, hleast, -⟩ | ⟨rfl, hleast⟩
      · exact ⟨hone, hleast⟩
      · have hmore : 0x10000000000001 * (2 * (den * 2 ^ t)) ≤ m * (2 * (den * 2 ^ t)) :=
          Nat.mul_le_mul_right _ (by omega)
        omega
    have hshift : (x / den).log2 - 52 = t := shift_of_div hden (.inl (by omega)) (by omega)
    have hround : roundEven x (den <<< t) = 2 * fractionSize := by
      rw [Nat.shiftLeft_eq, fractionSize]
      exact roundEven_eq (by omega) (by omega) (.inl (by decide)) hstep
    rw [hshift, hround, ofWord_carry]
    exact hword

/-! ### The interval -/

theorem shift_le_units (h : 0 < d.significand) : 2 ^ d.shift ≤ d.units := by
  rw [units_eq]
  exact Nat.le_mul_of_pos_left _ h

theorem low_mul (h : 0 < d.significand) (den : Nat) :
    (4 * d.units - d.reach * 2 ^ d.shift) * den + d.reach * (den * 2 ^ d.shift) =
      4 * (d.units * den) := by
  have hunits := shift_le_units h
  have hreach := Nat.mul_le_mul_right (2 ^ d.shift) d.reach_bounds.2
  have hle : d.reach * 2 ^ d.shift ≤ 4 * d.units := by omega
  have hcomm : d.reach * (den * 2 ^ d.shift) = d.reach * 2 ^ d.shift * den := by ring
  rw [hcomm, ← Nat.add_mul, Nat.sub_add_cancel hle, Nat.mul_assoc]

/-- **The interval of a double** that is not zero holds the quotients around it. -/
theorem holds_iff_around (hpos : 0 < d.significand) (num den : Nat) :
    d.readBack.holds (4 * num) den = true ↔ d.Around num den := by
  have hlow := low_mul hpos den
  have hhigh : (4 * d.units + 2 * 2 ^ d.shift) * den =
      4 * (d.units * den) + 2 * (den * 2 ^ d.shift) := by ring
  rw [readBack_eq, ReadBack.holds]
  dsimp only
  rw [hhigh]
  by_cases heven : d.significand % 2 = 0
  · simp only [heven, decide_true, if_true, Bool.and_eq_true, decide_eq_true_eq]
    constructor
    · rintro ⟨hl, hh⟩
      exact ⟨by omega, hh, .inl heven⟩
    · rintro ⟨hl, hh, -⟩
      exact ⟨by omega, hh⟩
  · simp only [heven, decide_false, Bool.false_eq_true, if_false, Bool.and_eq_true,
      decide_eq_true_eq]
    constructor
    · rintro ⟨hl, hh⟩
      exact ⟨by omega, by omega, .inr ⟨by omega, hh⟩⟩
    · rintro ⟨-, -, hends⟩
      omega

end Registrar.Double
