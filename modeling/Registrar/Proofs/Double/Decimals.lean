import Registrar.Double.Text
import Registrar.Proofs.Double.Nearest
import Registrar.Proofs.Text.Times

/-!
# The shortest decimal reads back

On the grid of seventeen digits a double has more than 10^16 steps below it, and its significand is
less than that. So a step of the grid is narrower than the interval of the double, and one of the two
neighbours on the grid lies inside. Whichever grid has the first hit, the decimal that is found lies
around the double, and the double is what is read for it.

* `ReadsBack`: **a decimal that lies around a double**.
* `ReadsBack.shift`: it does so however its zeros are counted.
* `ofDecimal_of_readsBack`: the double is read for it.
* `decimal_readsBack`: **the shortest decimal is such a one**.
-/

namespace Registrar.Double

variable {d : Double}

/-! ### Decimals around a double -/

theorem around_mul {num den k : Nat} (hk : 0 < k) :
    d.Around (num * k) (den * k) ↔ d.Around num den := by
  have hunits : 4 * (d.units * (den * k)) = 4 * (d.units * den) * k := by ring
  have hnum : 4 * (num * k) = 4 * num * k := by ring
  have hlow : 4 * num * k + d.reach * (den * k * 2 ^ d.shift) =
      (4 * num + d.reach * (den * 2 ^ d.shift)) * k := by ring
  have hhigh : 4 * (d.units * den) * k + 2 * (den * k * 2 ^ d.shift) =
      (4 * (d.units * den) + 2 * (den * 2 ^ d.shift)) * k := by ring
  constructor
  · rintro ⟨hl, hh, hends⟩
    rw [hunits, hnum, hlow] at hl hends
    rw [hunits, hnum, hhigh] at hh
    rw [hhigh] at hends
    exact ⟨Nat.le_of_mul_le_mul_right hl hk, Nat.le_of_mul_le_mul_right hh hk,
      hends.imp_right (And.imp Nat.lt_of_mul_lt_mul_right Nat.lt_of_mul_lt_mul_right)⟩
  · rintro ⟨hl, hh, hends⟩
    refine ⟨?_, ?_, hends.imp_right fun h => ?_⟩
    · rw [hunits, hnum, hlow]
      exact Nat.mul_le_mul_right k hl
    · rw [hunits, hnum, hhigh]
      exact Nat.mul_le_mul_right k hh
    · rw [hunits, hnum, hlow, hhigh]
      exact ⟨Nat.mul_lt_mul_of_pos_right h.1 hk, Nat.mul_lt_mul_of_pos_right h.2 hk⟩

theorem around_of_lt {num den : Nat}
    (hlow : 4 * (d.units * den) < 4 * num + d.reach * (den * 2 ^ d.shift))
    (hhigh : 4 * num < 4 * (d.units * den) + 2 * (den * 2 ^ d.shift)) : d.Around num den :=
  ⟨hlow.le, hhigh.le, .inr ⟨hlow, hhigh⟩⟩

theorem around_self (d : Double) : d.Around d.units 1 := by
  have hplace := Nat.two_pow_pos d.shift
  have hreach : 0 < d.reach * 2 ^ d.shift := Nat.mul_pos d.reach_bounds.1 hplace
  refine around_of_lt ?_ ?_
  · rw [Nat.one_mul]
    omega
  · rw [Nat.one_mul]
    omega

/-- **A decimal that reads back**: `n · 10^exponent` lies around the double. -/
def ReadsBack (d : Double) (n : Nat) (exponent : Int) : Prop :=
  d.Around (n * Text.tenTo exponent.toNat * one) (Text.tenTo (-exponent).toNat)

theorem tenTo_pos (k : Nat) : 0 < Text.tenTo k := Nat.pow_pos (by decide)

@[simp] theorem tenTo_zero : Text.tenTo 0 = 1 := rfl

theorem tenTo_add (j k : Nat) : Text.tenTo (j + k) = Text.tenTo j * Text.tenTo k := Nat.pow_add 10 j k

theorem tenTo_le {j k : Nat} (h : j ≤ k) : Text.tenTo j ≤ Text.tenTo k :=
  Nat.pow_le_pow_right (by decide) h

/-- **A decimal reads back** however many of its zeros are written with its digits. -/
theorem ReadsBack.shift {n k : Nat} {e : Int} (h : d.ReadsBack (n * Text.tenTo k) e) (j : Nat) :
    d.ReadsBack (n * Text.tenTo j) (e + k - j) := by
  rw [ReadsBack] at h ⊢
  have hzeros : k + e.toNat + (-(e + k - j)).toNat = j + (e + k - j).toNat + (-e).toNat := by omega
  generalize (e + k - j).toNat = up at *
  generalize (-(e + k - j)).toNat = down at *
  generalize e.toNat = up' at *
  generalize (-e).toNat = down' at *
  have hsame : n * Text.tenTo k * Text.tenTo up' * one * Text.tenTo down =
      n * Text.tenTo j * Text.tenTo up * one * Text.tenTo down' := by
    calc n * Text.tenTo k * Text.tenTo up' * one * Text.tenTo down
        = n * (Text.tenTo k * Text.tenTo up' * Text.tenTo down) * one := by ring
      _ = n * (Text.tenTo j * Text.tenTo up * Text.tenTo down') * one := by
        rw [← tenTo_add, ← tenTo_add, ← tenTo_add, ← tenTo_add, hzeros]
      _ = n * Text.tenTo j * Text.tenTo up * one * Text.tenTo down' := by ring
  rw [← around_mul (tenTo_pos down), hsame, Nat.mul_comm (Text.tenTo down')] at h
  exact (around_mul (tenTo_pos down')).mp h

/-! ### What is read for a decimal -/

theorem length_toDigits {n : Nat} (hn : 0 < n) : ∃ k, (Nat.toDigits 10 n).length = k + 1 ∧
    Text.tenTo k ≤ n ∧ n < Text.tenTo (k + 1) := by
  have hbound : ∀ {k : Nat}, 0 < k → ((Nat.toDigits 10 n).length ≤ k ↔ n < 10 ^ k) := fun hk =>
    Nat.length_toDigits_le_iff (by decide) hk
  have hne : 0 < (Nat.toDigits 10 n).length := List.length_pos_iff.mpr Nat.toDigits_ne_nil
  obtain ⟨k, hk⟩ : ∃ k, (Nat.toDigits 10 n).length = k + 1 := ⟨_, (Nat.succ_pred hne.ne').symm⟩
  refine ⟨k, hk, ?_, (hbound (by omega)).mp hk.le⟩
  by_cases hzero : k = 0
  · rw [hzero]
    exact hn
  · have := mt (hbound (k := k) (by omega)).mpr (by omega)
    exact Nat.not_lt.mp this

theorem Around.le_num (hpos : 0 < d.significand) {num den : Nat} (h : d.Around num den) :
    den ≤ 2 * num := by
  have hlow := h.low
  have hplace := shift_le_units hpos
  have hreach := Nat.mul_le_mul_right (den * 2 ^ d.shift) d.reach_bounds.2
  have hstep : den * 2 ^ d.shift ≤ d.units * den := by
    rw [Nat.mul_comm d.units]
    exact Nat.mul_le_mul_left den hplace
  have hleast : den ≤ d.units * den :=
    Nat.le_mul_of_pos_left den ((Nat.two_pow_pos _).trans_le hplace)
  omega

theorem Around.num_lt (hfinite : d.IsFinite) {num den : Nat} (hden : 0 < den)
    (h : d.Around num den) : num < Text.tenTo 320 * one * den := by
  have hhigh := h.high
  have hsize : d.units + 2 ^ d.shift ≤ (2 ^ 53 + 1) * 2 ^ 2045 := by
    rw [units_eq, ← Nat.succ_mul]
    exact Nat.mul_le_mul (Nat.succ_le_succ d.significand_lt.le)
      (pow_le_pow_right₀ one_le_two (shift_le hfinite))
  have hbound : (2 ^ 53 + 1) * 2 ^ 2045 < Text.tenTo 320 * one := by decide +kernel
  refine Nat.lt_of_le_of_lt ?_ (Nat.mul_lt_mul_of_pos_right (hsize.trans_lt hbound) hden)
  rw [Nat.add_mul, Nat.mul_comm (2 ^ d.shift)]
  omega

theorem ReadsBack.pos (hpos : 0 < d.significand) {n : Nat} {e : Int} (h : d.ReadsBack n e) :
    0 < n := by
  by_contra hzero
  obtain rfl : n = 0 := by omega
  have hleast := Around.le_num hpos h
  rw [Nat.zero_mul, Nat.zero_mul] at hleast
  exact absurd (tenTo_pos _) (Nat.not_lt.mpr hleast)

/-- **The double is read** for a decimal that lies around it. -/
theorem ofDecimal_of_readsBack (hfinite : d.IsFinite) (hpos : 0 < d.significand) {n : Nat} {e : Int}
    (h : d.ReadsBack n e) : ofDecimal d.negative n e = d := by
  have hratio := ofRatio_of_around hfinite (tenTo_pos _) h
  have hleast := Around.le_num hpos h
  have hmost := Around.num_lt hfinite (tenTo_pos _) h
  generalize hup : e.toNat = up at *
  generalize hdown : (-e).toNat = down at *
  have hn := h.pos hpos
  obtain ⟨k, hlength, hk, hk'⟩ := length_toDigits hn
  -- The double is within the powers of ten that the reader turns to.
  have hsmall : ¬ (((k + 1 : Nat) : Int) + e < -330) := by
    intro hless
    obtain rfl : up = 0 := by omega
    have hunits : 2 * one ≤ Text.tenTo 331 := by decide +kernel
    refine absurd hleast (Nat.not_le.mpr ?_)
    calc 2 * (n * Text.tenTo 0 * one) = n * (2 * one) := by
          rw [tenTo_zero]
          ring
      _ < Text.tenTo (k + 1) * Text.tenTo 331 :=
        Nat.mul_lt_mul_of_lt_of_le hk' hunits (tenTo_pos 331)
      _ = Text.tenTo (k + 1 + 331) := (tenTo_add _ _).symm
      _ ≤ Text.tenTo down := tenTo_le (by omega)
  have hlarge : ¬ (320 < ((k + 1 : Nat) : Int) + e) := by
    intro hmore
    refine absurd hmost (Nat.not_lt.mpr ?_)
    calc Text.tenTo 320 * one * Text.tenTo down = Text.tenTo (320 + down) * one := by
          rw [tenTo_add]
          ring
      _ ≤ Text.tenTo (k + up) * one := Nat.mul_le_mul_right _ (tenTo_le (by omega))
      _ = Text.tenTo k * Text.tenTo up * one := by rw [tenTo_add]
      _ ≤ n * Text.tenTo up * one := Nat.mul_le_mul_right _ (Nat.mul_le_mul_right _ hk)
  rw [ofDecimal]
  simp only [hlength, hup, hdown]
  rw [if_neg (by simp only [Bool.or_eq_true, decide_eq_true_eq]; omega), if_neg hlarge, hratio]

/-! ### The shortest decimal -/

theorem holds_iff_readsBack (hpos : 0 < d.significand) (c : Nat) (e : Int) :
    d.readBack.holds (c * (4 * one * Text.tenTo e.toNat)) (Text.tenTo (-e).toNat) = true ↔
      d.ReadsBack c e := by
  rw [show c * (4 * one * Text.tenTo e.toNat) = 4 * (c * Text.tenTo e.toNat * one) by ring]
  exact holds_iff_around hpos _ _

theorem readsBack_of_onGrid? (hpos : 0 < d.significand) {e : Int} {c : Nat}
    (h : onGrid? d.readBack e = some c) : d.ReadsBack c e := by
  rw [← holds_iff_readsBack hpos]
  rw [onGrid?] at h
  split at h
  · rename_i hbelow habove
    split at h <;> rw [← Option.some.inj h] <;> assumption
  · rw [← Option.some.inj h]
    assumption
  · rw [← Option.some.inj h]
    assumption
  · cases h

theorem not_readsBack_of_onGrid? (hpos : 0 < d.significand) {e : Int}
    (h : onGrid? d.readBack e = none) {c : Nat}
    (hc : c = d.readBack.value * Text.tenTo (-e).toNat / (4 * one * Text.tenTo e.toNat) ∨
      c = d.readBack.value * Text.tenTo (-e).toNat / (4 * one * Text.tenTo e.toNat) + 1) :
    ¬ d.ReadsBack c e := by
  rw [← holds_iff_readsBack hpos]
  rw [onGrid?] at h
  split at h
  · split at h <;> cases h
  · cases h
  · cases h
  · rcases hc with rfl | rfl <;> simp [*]

/-- **A grid that is narrow enough** has a hit. -/
theorem exists_onGrid? (hpos : 0 < d.significand) {e : Int}
    (h : Text.tenTo 16 * (one * Text.tenTo e.toNat) ≤ d.units * Text.tenTo (-e).toNat) :
    ∃ c, onGrid? d.readBack e = some c := by
  by_contra hnone
  rw [not_exists] at hnone
  have hmiss : onGrid? d.readBack e = none := Option.eq_none_iff_forall_ne_some.mpr hnone
  have hbelow := not_readsBack_of_onGrid? hpos hmiss (.inl rfl)
  have habove := not_readsBack_of_onGrid? hpos hmiss (.inr rfl)
  have hvalue : d.readBack.value = 4 * d.units := by rw [readBack_eq]
  have hsteps : 4 * d.units * Text.tenTo (-e).toNat / (4 * one * Text.tenTo e.toNat) =
      d.units * Text.tenTo (-e).toNat / (one * Text.tenTo e.toNat) := by
    rw [Nat.mul_assoc, Nat.mul_assoc 4 one, Nat.mul_div_mul_left _ _ (by decide : 0 < 4)]
  rw [hvalue, hsteps, ReadsBack] at hbelow habove
  have hplace := Nat.mul_pos (tenTo_pos (-e).toNat) (Nat.two_pow_pos d.shift)
  have hgrid : 0 < one * Text.tenTo e.toNat := Nat.mul_pos one_pos (tenTo_pos _)
  have hcomm : ∀ c, c * Text.tenTo e.toNat * one = c * (one * Text.tenTo e.toNat) := by
    intro c
    ring
  rw [hcomm] at hbelow habove
  generalize Text.tenTo (-e).toNat = den at *
  generalize one * Text.tenTo e.toNat = step at *
  have hdiv := Nat.div_mul_le_self (d.units * den) step
  have hdiv' := Nat.lt_div_mul_add (a := d.units * den) hgrid
  rw [Nat.succ_mul] at habove
  generalize d.units * den / step * step = below at *
  -- The neighbour below is at the lower end or below it, so the one above is within.
  have hfar : below * 4 + d.reach * (den * 2 ^ d.shift) ≤ 4 * (d.units * den) := by
    by_contra hnear
    exact hbelow (around_of_lt (by omega) (by omega))
  have hwide : 4 * step < (d.reach + 2) * (den * 2 ^ d.shift) := by
    have hunits : d.units * den = d.significand * (den * 2 ^ d.shift) := by
      rw [units_eq]
      ring
    have hsize := d.significand_lt
    rw [hunits, show Text.tenTo 16 = 10000000000000000 from rfl] at h
    simp only [fractionSize] at hsize
    rcases d.reach_cases with ⟨hreach, hleast, -⟩ | ⟨hreach, -⟩
    · rw [fractionSize] at hleast
      rw [hreach]
      rw [hleast] at h
      omega
    · have hmost : d.significand * (den * 2 ^ d.shift) ≤ 0x20000000000000 * (den * 2 ^ d.shift) :=
        Nat.mul_le_mul_right _ hsize.le
      rw [hreach]
      omega
  rw [Nat.add_mul] at hwide
  exact habove (around_of_lt (by omega) (by omega))

theorem exists_floorLog10 {num den : Nat} (hden : 0 < den) (h : den ≤ num * Text.tenTo 400) :
    ∃ k : Nat, floorLog10 num den = k - 400 ∧ Text.tenTo k * den ≤ num * Text.tenTo 400 := by
  obtain ⟨k, hlength, hk, -⟩ := length_toDigits (Nat.div_pos h hden)
  refine ⟨k, ?_, ?_⟩
  · rw [floorLog10, hlength]
    omega
  · exact (Nat.mul_le_mul_right den hk).trans (Nat.div_mul_le_self _ _)

/-- With seventeen digits the grid is narrow enough. -/
theorem grid_le {u k : Nat} {e : Int} (he : e = k - 416)
    (h : Text.tenTo k * one ≤ u * Text.tenTo 400) :
    Text.tenTo 16 * (one * Text.tenTo e.toNat) ≤ u * Text.tenTo (-e).toNat := by
  have hzeros : 400 + (16 + e.toNat) = k + (-e).toNat := by omega
  generalize e.toNat = up at *
  generalize (-e).toNat = down at *
  refine Nat.le_of_mul_le_mul_left ?_ (tenTo_pos 400)
  calc Text.tenTo 400 * (Text.tenTo 16 * (one * Text.tenTo up))
      = Text.tenTo 400 * (Text.tenTo 16 * Text.tenTo up) * one := by ring
    _ = Text.tenTo k * Text.tenTo down * one := by
      rw [← tenTo_add 16, ← tenTo_add, hzeros, tenTo_add]
    _ = Text.tenTo k * one * Text.tenTo down := by ring
    _ ≤ u * Text.tenTo 400 * Text.tenTo down := Nat.mul_le_mul_right _ h
    _ = Text.tenTo 400 * (u * Text.tenTo down) := by ring

/-- **The shortest decimal reads back.** -/
theorem decimal_readsBack (hpos : 0 < d.significand) :
    ∃ c e, d.decimal = Decimal.ofScaled c e ∧ d.ReadsBack c e := by
  have hunits : 0 < d.units := (Nat.two_pow_pos _).trans_le (shift_le_units hpos)
  have hvalue : d.readBack.value = 4 * d.units := by rw [readBack_eq]
  rw [decimal]
  dsimp only
  generalize hfound : List.findSome? _ _ = found
  cases found with
  | some shortest =>
    obtain ⟨n, -, hn⟩ := List.exists_of_findSome?_eq_some hfound
    rw [Option.map_eq_some_iff] at hn
    obtain ⟨c, hc, rfl⟩ := hn
    exact ⟨c, _, rfl, readsBack_of_onGrid? hpos hc⟩
  | none =>
    -- There is a hit among seventeen digits at the latest.
    have hmiss := List.findSome?_eq_none_iff.mp hfound 16 (by decide)
    rw [Option.map_eq_none_iff] at hmiss
    have hleast : 4 * one ≤ d.readBack.value * Text.tenTo 400 := by
      rw [hvalue]
      exact Nat.mul_le_mul (by omega) (by decide +kernel)
    obtain ⟨k, hk, hle⟩ := exists_floorLog10 (Nat.mul_pos (by decide) one_pos) hleast
    have hlog : Text.tenTo k * one ≤ d.units * Text.tenTo 400 := by
      refine Nat.le_of_mul_le_mul_left ?_ (by decide : 0 < 4)
      calc 4 * (Text.tenTo k * one) = Text.tenTo k * (4 * one) := by ring
        _ ≤ d.readBack.value * Text.tenTo 400 := hle
        _ = 4 * (d.units * Text.tenTo 400) := by rw [hvalue, Nat.mul_assoc]
    have hgrid : floorLog10 d.readBack.value (4 * one) - (16 : Nat) = k - 416 := by
      rw [hk]
      omega
    obtain ⟨c, hc⟩ := exists_onGrid? hpos (grid_le hgrid hlog)
    rw [hc] at hmiss
    cases hmiss

end Registrar.Double
