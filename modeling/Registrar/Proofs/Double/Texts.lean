import Registrar.Proofs.Double.Decimals
import Registrar.Proofs.Entity.Exchanging

/-!
# Doubles are read as they are written

The plain style writes the digits of the shortest decimal, with zeros up to its point or with the
point among them. Reading counts the digits after the point against the power of ten, so it comes to
the same decimal, and from it to the double. A whole number may also be written as an integer; the
double is read from that, too. Only whole numbers are written without a point.

* `Decimal.positional_cases`: how a decimal is written.
* `parse?_plainText`: **a finite double is read as it is written**.
* `parse?_toString`: it is read from the integer that it is equal to.
* `parseInt?_plainText`: what is no whole number is not written as an integer.
-/

namespace Registrar

namespace Text

theorem parseDigits?_point (ws fs : List Char) : parseDigits? (ws ++ '.' :: fs) = none := by
  rw [parseDigits?, if_pos]
  simp [isDigit]

theorem parseSigned?_point (ws fs : List Char) (h : ws ≠ []) :
    parseSigned? (ws ++ '.' :: fs) = none := by
  cases ws with
  | nil => exact absurd rfl h
  | cons c cs =>
    rw [List.cons_append, parseSigned?.eq_def]
    split
    · rename_i heq
      rw [← (List.cons.inj heq).2, parseDigits?_point]
      rfl
    · rename_i heq
      rw [← (List.cons.inj heq).2, parseDigits?_point]
      rfl
    · rw [← List.cons_append, parseDigits?_point]
      rfl

end Text

/-! ### Decimals in positional style -/

namespace Decimal

/-- **Digits**: at least one, and nothing else. -/
structure Digits (ds : List Char) : Prop where
  ne_nil : ds ≠ []
  all : ∀ c ∈ ds, Text.isDigit c = true

theorem Digits.append_zeros {ds : List Char} (h : Digits ds) (k : Nat) :
    Digits (ds ++ List.replicate k '0') := by
  refine ⟨List.append_ne_nil_of_left_ne_nil h.ne_nil _, fun c hc => ?_⟩
  rcases List.mem_append.mp hc with hc | hc
  · exact h.all c hc
  · rw [List.eq_of_mem_replicate hc]
    rfl

theorem digits_toDigits (n : Nat) : Digits (Nat.toDigits 10 n) :=
  ⟨Nat.toDigits_ne_nil, fun _ hc => Nat.isDigit_of_mem_toDigits (by decide) (by decide) hc⟩

theorem natOfDigits_toDigits (n : Nat) : Text.natOfDigits (Nat.toDigits 10 n) = n :=
  Nat.ofDigitChars_ten_toDigits

/-- **A decimal without its trailing zeros**: they are counted with the power of ten. -/
theorem ofScaled_spec {c : Nat} (hc : 0 < c) (e : Int) : ∃ k : Nat,
    Digits (ofScaled c e).digits ∧ c = Text.natOfDigits (ofScaled c e).digits * Text.tenTo k ∧
      (ofScaled c e).point = (ofScaled c e).digits.length + (e + k) := by
  obtain ⟨k, hk⟩ := Calendar.exists_zeros (Nat.toDigits 10 c)
  have hnumber := natOfDigits_toDigits c
  have hdigits := (digits_toDigits c).all
  refine ⟨k, ?_⟩
  rw [ofScaled]
  dsimp only
  generalize ((Nat.toDigits 10 c).reverse.dropWhile (· = '0')).reverse = shown at *
  rw [hk] at hnumber hdigits ⊢
  rw [Text.natOfDigits_append_zeros] at hnumber
  refine ⟨⟨?_, fun x hx => hdigits x (List.mem_append_left _ hx)⟩, hnumber.symm, ?_⟩
  · rintro rfl
    rw [show Text.natOfDigits [] = 0 from rfl] at hnumber
    omega
  · rw [List.length_append, List.length_replicate]
    omega

/-- **How a decimal is written** in positional style: with the point among the digits, or with
zeros up to the point. -/
theorem positional_cases {x : Decimal} (h : Digits x.digits) :
    (∃ ws fs, (x.positional "").toList = ws ++ '.' :: fs ∧ Digits ws ∧
      (∀ c ∈ fs, Text.isDigit c = true) ∧
      Text.natOfDigits (ws ++ fs) = Text.natOfDigits x.digits ∧
      x.digits.length = x.point + fs.length) ∨
    ∃ k : Nat, (x.positional "").toList = x.digits ++ List.replicate k '0' ∧
      x.point = x.digits.length + k := by
  rw [positional]
  by_cases hsmall : x.point ≤ 0
  · -- Nothing stands before the point but a zero.
    rw [if_pos hsmall]
    refine .inl ⟨['0'], List.replicate (-x.point).toNat '0' ++ x.digits, ?_,
      digits_toDigits 0, ?_, ?_, ?_⟩
    · rw [String.toList_append, String.toList_ofList, String.toList_ofList]
      rfl
    · intro c hc
      rcases List.mem_append.mp hc with hc | hc
      · rw [List.eq_of_mem_replicate hc]
        rfl
      · exact h.all c hc
    · rw [← List.append_assoc]
      exact Text.natOfDigits_zeros_append x.digits ((-x.point).toNat + 1)
    · rw [List.length_append, List.length_replicate]
      omega
  · rw [if_neg hsmall]
    dsimp only
    by_cases hlong : x.digits.length ≤ x.point.toNat
    · rw [if_pos hlong]
      refine .inr ⟨x.point.toNat - x.digits.length, ?_, by omega⟩
      rw [String.toList_append, String.toList_ofList]
      exact List.append_nil _
    · rw [if_neg hlong]
      refine .inl ⟨x.digits.take x.point.toNat, x.digits.drop x.point.toNat, ?_, ⟨?_, ?_⟩, ?_, ?_,
        ?_⟩
      · rw [String.toList_append, String.toList_append, String.toList_ofList, String.toList_ofList,
          String.toList_ofList, List.append_assoc]
        rfl
      · intro hnil
        rcases List.take_eq_nil_iff.mp hnil with hzero | hnil
        · omega
        · exact h.ne_nil hnil
      · exact fun c hc => h.all c (List.mem_of_mem_take hc)
      · exact fun c hc => h.all c (List.mem_of_mem_drop hc)
      · rw [List.take_append_drop]
      · rw [List.length_drop]
        omega

end Decimal

namespace Double

variable {d : Double}

open Decimal (Digits)

/-! ### Reading digits -/

theorem takeWhile_digits {ws : List Char} (h : ∀ c ∈ ws, Text.isDigit c = true) (rest : List Char) :
    (ws ++ '.' :: rest).takeWhile Text.isDigit = ws ∧
      (ws ++ '.' :: rest).dropWhile Text.isDigit = '.' :: rest := by
  constructor
  · rw [List.takeWhile_append_of_pos h]
    simp [Text.isDigit]
  · rw [List.dropWhile_append_of_pos h]
    simp [Text.isDigit]

theorem parseDecimal?_digits (negative : Bool) {ws : List Char} (h : Digits ws) :
    parseDecimal? negative ws = some (ofDecimal negative (Text.natOfDigits ws) 0) := by
  have htake : ws.takeWhile Text.isDigit = ws := List.takeWhile_eq_self_iff.mpr h.all
  have hdrop : ws.dropWhile Text.isDigit = [] := List.dropWhile_eq_nil_iff.mpr h.all
  have hne := h.ne_nil
  rw [parseDecimal?]
  simp [htake, hdrop, hne]

theorem parseDecimal?_point (negative : Bool) {ws fs : List Char} (h : Digits ws)
    (hfs : ∀ c ∈ fs, Text.isDigit c = true) :
    parseDecimal? negative (ws ++ '.' :: fs) =
      some (ofDecimal negative (Text.natOfDigits (ws ++ fs)) (0 - fs.length)) := by
  obtain ⟨htake, hdrop⟩ := takeWhile_digits h.all fs
  have htake' : fs.takeWhile Text.isDigit = fs := List.takeWhile_eq_self_iff.mpr hfs
  have hdrop' : fs.dropWhile Text.isDigit = [] := List.dropWhile_eq_nil_iff.mpr hfs
  have hne := h.ne_nil
  rw [parseDecimal?]
  simp [htake, hdrop, htake', hdrop', hne]

theorem toLower_of_isDigit {c : Char} (h : Text.isDigit c = true) : c.toLower = c := by
  rw [Text.isDigit, Bool.and_eq_true, decide_eq_true_iff, decide_eq_true_iff] at h
  have hupper : ¬ 'A' ≤ c := fun hle => absurd (Char.le_trans hle h.2) (by decide)
  delta Char.toLower
  rw [dif_neg fun hc => hupper hc.1]

/-- How the sign is written. -/
def sign (negative : Bool) : List Char := if negative then ['-'] else []

/-- **A sign and a digit** are not the beginning of a word. -/
theorem parse?_signed {s : String} {negative : Bool} {c : Char} {cs : List Char}
    (hc : Text.isDigit c = true) (hs : s.toList = sign negative ++ c :: cs) :
    parse? s = parseDecimal? negative (c :: cs) := by
  have hword : ∀ {w : String} {x : Char} {xs : List Char}, w.toList = x :: xs →
      Text.isDigit x = false → String.ofList ((c :: cs).map Char.toLower) ≠ w := by
    intro w x xs hw hx heq
    rw [← String.toList_inj, String.toList_ofList, hw, List.map_cons, toLower_of_isDigit hc] at heq
    rw [← (List.cons.inj heq).1, hc] at hx
    cases hx
  have hinf := hword (w := "inf") rfl (by decide)
  have hinfinity := hword (w := "infinity") rfl (by decide)
  have hnan := hword (w := "nan") rfl (by decide)
  have hminus : c ≠ '-' := by
    rintro rfl
    exact absurd hc (by decide)
  have hplus : c ≠ '+' := by
    rintro rfl
    exact absurd hc (by decide)
  have hwords : ¬ (decide (String.ofList ((c :: cs).map Char.toLower) = "inf") ||
      decide (String.ofList ((c :: cs).map Char.toLower) = "infinity")) = true := by
    simp only [hinf, hinfinity, decide_false, Bool.or_self, Bool.false_eq_true, not_false_eq_true]
  rw [parse?, hs]
  cases negative with
  | true => exact (if_neg hwords).trans (if_neg hnan)
  | false =>
    rw [sign, if_neg Bool.false_ne_true, List.nil_append]
    split
    rename_i hsplit
    split at hsplit
    · rename_i heq
      exact absurd (List.cons.inj heq).1 hminus
    · rename_i heq
      exact absurd (List.cons.inj heq).1 hplus
    · obtain ⟨rfl, rfl⟩ := Prod.mk.inj hsplit
      exact (if_neg hwords).trans (if_neg hnan)

theorem parse?_digits {s : String} {negative : Bool} {ws rest : List Char} (h : Digits ws)
    (hs : s.toList = sign negative ++ (ws ++ rest)) :
    parse? s = parseDecimal? negative (ws ++ rest) := by
  cases ws with
  | nil => exact absurd rfl h.ne_nil
  | cons c cs => exact parse?_signed (h.all c List.mem_cons_self) hs

/-! ### Finite doubles -/

theorem isFinite_iff : d.IsFinite ↔ ∃ u, d.point = .finite u := by
  rw [IsFinite, point]
  by_cases h : d.exponentField = 2047
  · rw [if_pos h]
    refine ⟨fun hne => absurd h hne, ?_⟩
    rintro ⟨u, hu⟩
    split_ifs at hu
  · rw [if_neg h]
    exact ⟨fun _ => ⟨_, rfl⟩, fun _ => h⟩

theorem point_of_isFinite (h : d.IsFinite) :
    d.point = .finite (if d.negative then -(d.units : Int) else d.units) := by
  rw [point, if_neg h]

theorem units_pos_iff : 0 < d.units ↔ 0 < d.significand := by
  rw [units_eq]
  exact Nat.mul_pos_iff_of_pos_right (Nat.two_pow_pos _)

theorem ofWord_zero (hfinite : d.IsFinite) (h : ¬ 0 < d.significand) :
    ofWord d.negative 0 0 = d := by
  have hzero : d.significand = 0 := by omega
  have hshift : d.shift = 0 := by
    by_contra hne
    have hlong := fractionSize_le_significand (d := d) (by omega)
    rw [hzero] at hlong
    exact absurd hlong (by decide)
  calc ofWord d.negative 0 0 = ofWord d.negative d.significand d.shift := by rw [hzero, hshift]
    _ = d := ofWord_self hfinite

theorem toList_plainText (hfinite : d.IsFinite) : d.plainText.toList =
    sign d.negative ++ if 0 < d.significand then (d.decimal.positional "").toList else ['0'] := by
  have hsign : (if d.negative then "-" else "").toList = sign d.negative := by
    rw [sign]
    split <;> rfl
  have hzero : (if d.negative then -(d.units : Int) else (d.units : Int)) = 0 ↔
      ¬ 0 < d.significand := by
    rw [← units_pos_iff]
    split <;> omega
  rw [plainText, write, point_of_isFinite hfinite]
  simp only [hzero, plainStyle, Bool.false_eq_true, if_false]
  by_cases hpos : 0 < d.significand
  · rw [if_neg (not_not_intro hpos), if_pos hpos, String.toList_append, hsign]
  · rw [if_pos hpos, if_neg hpos, String.toList_append, String.toList_append, hsign,
      List.append_assoc]
    rfl

/-- **How a finite double is written** that is not zero: by a decimal that reads back, with a point
or without. -/
theorem toList_plainText_cases (hfinite : d.IsFinite) (hpos : 0 < d.significand) :
    (∃ ws fs, d.plainText.toList = sign d.negative ++ (ws ++ '.' :: fs) ∧ Digits ws ∧
      (∀ c ∈ fs, Text.isDigit c = true) ∧
      d.ReadsBack (Text.natOfDigits (ws ++ fs)) (0 - fs.length)) ∨
    ∃ ws, d.plainText.toList = sign d.negative ++ ws ∧ Digits ws ∧
      d.ReadsBack (Text.natOfDigits ws) 0 := by
  have hchars := toList_plainText hfinite
  rw [if_pos hpos] at hchars
  obtain ⟨c, e, hdecimal, hreads⟩ := decimal_readsBack hpos
  obtain ⟨k, hdigits, hnumber, hpoint⟩ := Decimal.ofScaled_spec (hreads.pos hpos) e
  rw [← hdecimal] at hdigits hnumber hpoint
  rw [hnumber] at hreads
  rcases Decimal.positional_cases hdigits with
    ⟨ws, fs, hlist, hws, hfs, hsame, hlength⟩ | ⟨j, hlist, hlength⟩
  · refine .inl ⟨ws, fs, by rw [hchars, hlist], hws, hfs, ?_⟩
    have hshift := hreads.shift 0
    rwa [show e + k - (0 : Nat) = 0 - fs.length by omega, tenTo_zero, Nat.mul_one, ← hsame]
      at hshift
  · refine .inr ⟨_, by rw [hchars, hlist], hdigits.append_zeros j, ?_⟩
    have hshift := hreads.shift j
    rwa [show e + k - j = 0 by omega, ← Text.natOfDigits_append_zeros] at hshift

theorem parse?_of_readsBack (hfinite : d.IsFinite) (hpos : 0 < d.significand) {s : String}
    {ws : List Char} (hs : s.toList = sign d.negative ++ ws) (h : Digits ws)
    (hreads : d.ReadsBack (Text.natOfDigits ws) 0) : parse? s = some d := by
  rw [← List.append_nil ws] at hs
  rw [parse?_digits h hs, List.append_nil, parseDecimal?_digits _ h,
    ofDecimal_of_readsBack hfinite hpos hreads]

/-- **A finite double is read as it is written.** -/
theorem parse?_plainText (hfinite : d.IsFinite) : parse? d.plainText = some d := by
  by_cases hpos : 0 < d.significand
  · rcases toList_plainText_cases hfinite hpos with
      ⟨ws, fs, hchars, hws, hfs, hreads⟩ | ⟨ws, hchars, hws, hreads⟩
    · rw [parse?_digits hws hchars, parseDecimal?_point _ hws hfs,
        ofDecimal_of_readsBack hfinite hpos hreads]
    · exact parse?_of_readsBack hfinite hpos hchars hws hreads
  · have hchars := toList_plainText hfinite
    rw [if_neg hpos, ← List.append_nil ['0']] at hchars
    have hzero : Digits ['0'] := Decimal.digits_toDigits 0
    rw [parse?_digits hzero hchars, List.append_nil, parseDecimal?_digits _ hzero]
    exact congrArg some (ofWord_zero hfinite hpos)

/-! ### Whole numbers -/

theorem isWhole_iff : d.isWhole = true ↔ d.IsFinite ∧ one ∣ d.units := by
  rw [isWhole]
  constructor
  · intro h
    split at h
    · rename_i u hu
      have hfinite := isFinite_iff.mpr ⟨u, hu⟩
      rw [point_of_isFinite hfinite] at hu
      rw [← Point.finite.inj hu, beq_iff_eq] at h
      have hdvd := Int.dvd_of_emod_eq_zero h
      refine ⟨hfinite, Int.natCast_dvd_natCast.mp ?_⟩
      split at hdvd
      · exact (Int.dvd_neg).mp hdvd
      · exact hdvd
    · cases h
  · rintro ⟨hfinite, hdvd⟩
    rw [point_of_isFinite hfinite]
    dsimp only
    rw [beq_iff_eq]
    refine Int.emod_eq_zero_of_dvd ?_
    have := Int.natCast_dvd_natCast.mpr hdvd
    split
    · exact (Int.dvd_neg).mpr this
    · exact this

/-- **A whole number around a double** is the double: the places of a double that is not whole are
less than one. -/
theorem one_dvd_units_of_around {n : Nat} (h : d.Around (n * one) 1) : one ∣ d.units := by
  obtain ⟨hlow, hhigh, -⟩ := h
  rw [units_eq, Nat.mul_one, Nat.one_mul] at hlow hhigh
  rw [units_eq]
  have hplace := Nat.two_pow_pos d.shift
  have hreach := Nat.mul_le_mul_right (2 ^ d.shift) d.reach_bounds.2
  by_cases hlarge : unitShift ≤ d.shift
  · rw [one_eq]
    exact Dvd.dvd.mul_left (pow_dvd_pow 2 hlarge) _
  · -- Both are counted in the places of the double, and less than one of them apart.
    obtain ⟨k, hk⟩ : ∃ k, unitShift = k + d.shift := ⟨unitShift - d.shift, by omega⟩
    have hplaces : n * one = n * 2 ^ k * 2 ^ d.shift := by
      rw [one_eq, hk, pow_add, Nat.mul_assoc]
    rw [hplaces] at hlow hhigh
    have hdvd : one ∣ n * 2 ^ k * 2 ^ d.shift := ⟨n, by rw [← hplaces, Nat.mul_comm]⟩
    generalize 2 ^ d.shift = place at *
    have hsame : d.significand = n * 2 ^ k := by
      generalize n * 2 ^ k = m at *
      rcases Nat.lt_trichotomy d.significand m with hless | heq | hmore
      · have := Nat.mul_le_mul_right place (Nat.succ_le_of_lt hless)
        rw [Nat.succ_mul] at this
        omega
      · exact heq
      · have := Nat.mul_le_mul_right place (Nat.succ_le_of_lt hmore)
        rw [Nat.succ_mul] at this
        omega
    rwa [hsame]

/-- **What is no whole number** is not written as an integer. -/
theorem parseInt?_plainText (hfinite : d.IsFinite) (h : ¬ d.isWhole = true) :
    Text.parseInt? d.plainText = none := by
  have hpart : ¬ one ∣ d.units := fun hdvd => h (isWhole_iff.mpr ⟨hfinite, hdvd⟩)
  have hpos : 0 < d.significand := by
    by_contra hzero
    rw [← units_pos_iff] at hzero
    exact hpart ⟨0, by omega⟩
  rcases toList_plainText_cases hfinite hpos with
    ⟨ws, fs, hchars, hws, -, -⟩ | ⟨ws, -, -, hreads⟩
  · rw [Text.parseInt?, hchars, ← List.append_assoc]
    exact Text.parseSigned?_point _ _ (List.append_ne_nil_of_right_ne_nil _ hws.ne_nil)
  · rw [ReadsBack, Int.toNat_zero, tenTo_zero, Nat.mul_one] at hreads
    exact absurd (one_dvd_units_of_around hreads) hpart

theorem toList_toString (n : Int) :
    (toString n).toList = sign (decide (n < 0)) ++ Nat.toDigits 10 n.natAbs := by
  rw [Int.toString_eq_repr, Int.repr_eq_if]
  by_cases h : 0 ≤ n
  · rw [if_pos h, Nat.toList_repr, decide_eq_false (by omega), show n.toNat = n.natAbs by omega]
    rfl
  · rw [if_neg h, String.toList_append, Nat.toList_repr, decide_eq_true (by omega),
      show (-n).toNat = n.natAbs by omega]
    rfl

/-- **A whole number is read** from the integer that it is equal to. -/
theorem parse?_toString {n : Int} (h : d.point = .finite (n * one)) :
    ∃ e, parse? (toString n) = some e ∧ e.point = d.point := by
  have hfinite := isFinite_iff.mpr ⟨_, h⟩
  have hdigits : Digits (Nat.toDigits 10 n.natAbs) := Decimal.digits_toDigits _
  by_cases hn : n = 0
  · subst hn
    exact ⟨ofWord false 0 0, by decide +kernel, by rw [h]; decide +kernel⟩
  · have hsigned := point_of_isFinite hfinite
    rw [h] at hsigned
    have hsigned := Point.finite.inj hsigned
    have hunits : d.units = n.natAbs * one := by
      have habs := congrArg Int.natAbs hsigned
      rw [Int.natAbs_mul, Int.natAbs_natCast] at habs
      rw [habs]
      split <;> simp
    have hpos : 0 < d.units := hunits ▸ Nat.mul_pos (by omega) one_pos
    have hneg : d.negative = decide (n < 0) := by
      cases hsign : d.negative with
      | true =>
        rw [hsign, if_pos rfl] at hsigned
        refine (decide_eq_true (Int.not_le.mp fun hle => ?_)).symm
        have := Int.mul_nonneg hle (Int.natCast_nonneg one)
        omega
      | false =>
        rw [hsign, if_neg Bool.false_ne_true] at hsigned
        refine (decide_eq_false fun hlt => ?_).symm
        have := Int.mul_neg_of_neg_of_pos hlt (Int.natCast_pos.mpr one_pos)
        omega
    rw [units_pos_iff] at hpos
    refine ⟨d, parse?_of_readsBack hfinite hpos (hneg ▸ toList_toString n) hdigits ?_, rfl⟩
    rw [Decimal.natOfDigits_toDigits, ReadsBack, Int.toNat_zero, tenTo_zero, Nat.mul_one, ← hunits]
    exact around_self d

end Double

end Registrar
