import Registrar.Proofs.Double.Texts
import Registrar.Search.Operand

/-!
# Numbers as operands

A number that is compared with a field is to be stored as that number: as the integer of 64 bits
that it is equal to, as the same double, or as a text from which it is read again. A number that the
kind has no value for is refused. That holds for all numbers but the whole ones beyond the 64-bit
integers. These are not refused: for a field of integers and for one of texts they become the
nearest end of the range, which is another number.

* `Double.IsInt64`: **the integers of 64 bits** among the doubles.
* `IsTextOf`: a text that denotes a number.
* `Faithful`: **a number is stored as itself or refused**.
* `number_faithful_iff`: when it is.
-/

namespace Registrar

namespace Double

variable {d : Double}

/-- **An integer of 64 bits**, as a double. -/
def IsInt64 (d : Double) : Prop := ∃ n : Int64, d.point = .finite (n.toInt * one)

theorem toInt64_bounds (d : Double) : minInt64 ≤ d.toInt64 ∧ d.toInt64 ≤ maxInt64 := by
  rw [toInt64]
  split
  · decide
  · decide
  · decide
  · rw [minInt64, maxInt64]
    omega

theorem toInt_ofInt_toInt64 (d : Double) : (Int64.ofInt d.toInt64).toInt = d.toInt64 := by
  obtain ⟨hleast, hmost⟩ := d.toInt64_bounds
  rw [minInt64] at hleast
  rw [maxInt64] at hmost
  exact Int64.toInt_ofInt_of_le (by omega) (by omega)

theorem toInt64_of_point {n : Int64} (h : d.point = .finite (n.toInt * one)) :
    d.toInt64 = n.toInt := by
  have hpos : (one : Int) ≠ 0 := Int.natCast_ne_zero.mpr one_pos.ne'
  have hleast := n.le_toInt
  have hmost := n.toInt_lt
  rw [toInt64, h]
  dsimp only
  rw [Int.mul_tdiv_cancel _ hpos, minInt64, maxInt64]
  omega

/-- **An integer of 64 bits** is its whole part. -/
theorem isInt64_iff : d.IsInt64 ↔ d.point = .finite (d.toInt64 * one) := by
  constructor
  · rintro ⟨n, hn⟩
    rw [toInt64_of_point hn]
    exact hn
  · intro h
    refine ⟨Int64.ofInt d.toInt64, ?_⟩
    rw [toInt_ofInt_toInt64]
    exact h

theorem isWhole_of_isInt64 (h : d.IsInt64) : d.isWhole = true := by
  obtain ⟨n, hn⟩ := h
  rw [isWhole, hn]
  simp

/-- **A whole number beyond the integers of 64 bits.** -/
structure Overlong (d : Double) : Prop where
  whole : d.isWhole = true
  beyond : ¬ d.IsInt64

/-- The end of the range on the side of a number. -/
def nearestEnd (d : Double) : Int := if d.negative then minInt64 else maxInt64

/-- **The whole part of an overlong number** is the nearest end of the range. -/
theorem Overlong.toInt64_eq (h : d.Overlong) : d.toInt64 = d.nearestEnd := by
  obtain ⟨hwhole, hbeyond⟩ := h
  obtain ⟨hfinite, q, hq⟩ := isWhole_iff.mp hwhole
  have hpos : (one : Int) ≠ 0 := Int.natCast_ne_zero.mpr one_pos.ne'
  have hpoint : d.point = .finite ((if d.negative then -(q : Int) else q) * one) := by
    rw [point_of_isFinite hfinite, hq, Nat.mul_comm]
    split
    · rw [Nat.cast_mul, Int.neg_mul]
    · rw [Nat.cast_mul]
  have hpart : d.toInt64 =
      max minInt64 (min maxInt64 (if d.negative then -(q : Int) else (q : Int))) := by
    rw [toInt64, hpoint]
    dsimp only
    rw [Int.mul_tdiv_cancel _ hpos]
  have hne : d.toInt64 ≠ (if d.negative then -(q : Int) else (q : Int)) := by
    intro heq
    rw [isInt64_iff, heq] at hbeyond
    exact hbeyond hpoint
  rw [hpart] at hne ⊢
  rw [nearestEnd, minInt64, maxInt64] at *
  split_ifs at * <;> omega

end Double

namespace Operand

open Double (IsInt64 Overlong one)

variable {d : Double}

/-- **A text that denotes a number**: the number is read from it, and an integer is the very
number. The texts `NaN`, `inf` and `-inf` denote the numbers that are not finite, as which they are
read. -/
structure IsTextOf (d : Double) (t : String) : Prop where
  reads : ∃ e, Double.parse? t = some e ∧ e.point = d.point
  exact_of_integer : ∀ n, Text.parseInt? t = some n → d.point = .finite (n * one)

/-- **A stored value that denotes a number**, for a kind of single values. -/
def Denotes (d : Double) : FieldKind → Value → Prop
  | .integer, .int64 n => d.point = .finite (n.toInt * one)
  | .float, .double e => e = d
  | .string, .string t => IsTextOf d t
  | _, _ => False

/-- The kinds of single values that have a value for a number; there is a text for every number, also
for one that is not finite. -/
def Holds (d : Double) : FieldKind → Prop
  | .integer => d.IsInt64
  | .float | .string => True
  | _ => False

/-- **A number is converted faithfully** for a field: what is stored denotes it, and it is refused
if the kind has no value for it. -/
structure Faithful (d : Double) (kind : FieldKind) : Prop where
  denotes : ∀ v, (Operand.number d).toValue kind = .ok v → Denotes d kind.element v
  refuses : ¬ Holds d kind.element →
    (Operand.number d).toValue kind = .error ((Operand.number d).mismatch kind.element)

/-! ### Texts -/

theorem numberText_of_isWhole (h : d.isWhole = true) : numberText d = toString d.toInt64 := by
  rw [numberText, if_pos h]

/-- **The text of a number** denotes it, if it is not overlong. -/
theorem isTextOf_numberText (h : ¬ d.Overlong) : IsTextOf d (numberText d) := by
  by_cases hwhole : d.isWhole = true
  · have hpoint : d.point = .finite (d.toInt64 * one) := by
      rw [← Double.isInt64_iff]
      by_contra hbeyond
      exact h ⟨hwhole, hbeyond⟩
    rw [numberText_of_isWhole hwhole]
    refine ⟨Double.parse?_toString hpoint, fun n hn => ?_⟩
    rw [Text.parseInt?_toString, Option.some_inj] at hn
    rw [← hn]
    exact hpoint
  · rw [numberText, if_neg hwhole]
    -- The words for what is not finite are read, and they are no integers.
    have hword : ∀ {t : String} {e : Double}, d.plainText = t → Double.parse? t = some e →
        Text.parseInt? t = none → e.point = d.point → IsTextOf d d.plainText := by
      rintro t e rfl hread hinteger hpoint
      refine ⟨⟨e, hread, hpoint⟩, fun n hn => ?_⟩
      rw [hinteger] at hn
      cases hn
    rcases d.point_cases with hnan | hlow | hhigh | hfinite
    · refine hword (t := "NaN") (e := .nan) ?_ (by decide +kernel) (by decide +kernel) ?_
      · rw [Double.plainText, Double.write, hnan]
      · rw [hnan]
        decide +kernel
    · refine hword (t := "-inf") (e := .infinity true) ?_ (by decide +kernel) (by decide +kernel) ?_
      · rw [Double.plainText, Double.write, hlow]
      · rw [hlow]
        decide +kernel
    · refine hword (t := "inf") (e := .infinity false) ?_ (by decide +kernel) (by decide +kernel) ?_
      · rw [Double.plainText, Double.write, hhigh]
      · rw [hhigh]
        decide +kernel
    · have hfinite := Double.isFinite_iff.mpr hfinite
      exact hword rfl (Double.parse?_plainText hfinite) (Double.parseInt?_plainText hfinite hwhole)
        rfl

/-- **The text of an overlong number** is that of another one. -/
theorem not_isTextOf_numberText (h : d.Overlong) : ¬ IsTextOf d (numberText d) := by
  intro htext
  rw [numberText_of_isWhole h.whole] at htext
  exact h.beyond (Double.isInt64_iff.mpr (htext.exact_of_integer _ (Text.parseInt?_toString _)))

/-! ### The kinds -/

variable {kind : FieldKind}

theorem number_toValue_integer (h : kind.element = .integer) : (Operand.number d).toValue kind =
    if d.isWhole then .ok (.int64 (Int64.ofInt d.toInt64))
    else .error ((Operand.number d).mismatch .integer) := by
  rw [toValue, h]

theorem number_toValue_float (h : kind.element = .float) :
    (Operand.number d).toValue kind = .ok (.double d) := by
  rw [toValue, h]

theorem number_toValue_string (h : kind.element = .string) :
    (Operand.number d).toValue kind = .ok (.string (numberText d)) := by
  rw [toValue, h]

theorem number_toValue_other (hinteger : kind.element ≠ .integer) (hfloat : kind.element ≠ .float)
    (hstring : kind.element ≠ .string) : (Operand.number d).toValue kind =
      .error ((Operand.number d).mismatch kind.element) := by
  rw [toValue]
  generalize kind.element = target at *
  cases target <;> first | rfl | contradiction

theorem faithful_integer_iff (h : kind.element = .integer) : Faithful d kind ↔ ¬ d.Overlong := by
  have hvalue := number_toValue_integer (d := d) h
  constructor
  · rintro ⟨hdenotes, -⟩ hlong
    rw [if_pos hlong.whole] at hvalue
    have hpoint := hdenotes _ hvalue
    rw [h] at hpoint
    exact hlong.beyond ⟨_, hpoint⟩
  · intro hlong
    by_cases hwhole : d.isWhole = true
    · have hint : d.IsInt64 := by
        by_contra hbeyond
        exact hlong ⟨hwhole, hbeyond⟩
      rw [if_pos hwhole] at hvalue
      refine ⟨fun v hv => ?_, fun hnot => ?_⟩
      · rw [hvalue] at hv
        obtain rfl := Except.ok.inj hv
        rw [h, Denotes, Double.toInt_ofInt_toInt64]
        exact Double.isInt64_iff.mp hint
      · rw [h] at hnot
        exact absurd hint hnot
    · rw [if_neg hwhole] at hvalue
      refine ⟨fun v hv => ?_, fun _ => ?_⟩
      · rw [hvalue] at hv
        cases hv
      · rw [hvalue, h]

theorem faithful_string_iff (h : kind.element = .string) : Faithful d kind ↔ ¬ d.Overlong := by
  have hvalue := number_toValue_string (d := d) h
  constructor
  · rintro ⟨hdenotes, -⟩ hlong
    have htext := hdenotes _ hvalue
    rw [h] at htext
    exact not_isTextOf_numberText hlong htext
  · intro hlong
    refine ⟨fun v hv => ?_, fun hnot => ?_⟩
    · rw [hvalue] at hv
      obtain rfl := Except.ok.inj hv
      rw [h]
      exact isTextOf_numberText hlong
    · rw [h] at hnot
      exact absurd trivial hnot

theorem faithful_of_ne (hinteger : kind.element ≠ .integer) (hstring : kind.element ≠ .string) :
    Faithful d kind := by
  by_cases hfloat : kind.element = .float
  · have hvalue := number_toValue_float (d := d) hfloat
    refine ⟨fun v hv => ?_, fun hnot => ?_⟩
    · rw [hvalue] at hv
      obtain rfl := Except.ok.inj hv
      rw [hfloat]
      exact rfl
    · rw [hfloat] at hnot
      exact absurd trivial hnot
  · have hvalue := number_toValue_other (d := d) hinteger hfloat hstring
    refine ⟨fun v hv => ?_, fun _ => hvalue⟩
    rw [hvalue] at hv
    cases hv

theorem exists_of_holds (h : Holds d kind.element) :
    ∃ v, (Operand.number d).toValue kind = .ok v := by
  by_cases hinteger : kind.element = .integer
  · rw [hinteger] at h
    rw [number_toValue_integer hinteger, if_pos (Double.isWhole_of_isInt64 h)]
    exact ⟨_, rfl⟩
  · by_cases hfloat : kind.element = .float
    · exact ⟨_, number_toValue_float hfloat⟩
    · by_cases hstring : kind.element = .string
      · exact ⟨_, number_toValue_string hstring⟩
      · exfalso
        generalize kind.element = target at *
        cases target <;> contradiction

/-- **Which numbers are converted faithfully**: all but the overlong ones, for fields of integers or
texts. What a kind has a value for is accepted, and an overlong number becomes the nearest end of
the range. -/
theorem number_faithful_iff (d : Double) (kind : FieldKind) :
    (Faithful d kind ↔
      ¬ (d.Overlong ∧ (kind.element = .integer ∨ kind.element = .string))) ∧
    (Holds d kind.element → ∃ v, (Operand.number d).toValue kind = .ok v) ∧
    (d.Overlong → kind.element = .integer →
      (Operand.number d).toValue kind = .ok (.int64 (Int64.ofInt d.nearestEnd))) ∧
    (d.Overlong → kind.element = .string →
      (Operand.number d).toValue kind = .ok (.string (toString d.nearestEnd))) := by
  refine ⟨?_, exists_of_holds, fun hlong hinteger => ?_, fun hlong hstring => ?_⟩
  · by_cases hinteger : kind.element = .integer
    · rw [faithful_integer_iff hinteger]
      simp [hinteger]
    · by_cases hstring : kind.element = .string
      · rw [faithful_string_iff hstring]
        simp [hstring]
      · simp [hinteger, hstring, faithful_of_ne hinteger hstring]
  · rw [number_toValue_integer hinteger, if_pos hlong.whole, hlong.toInt64_eq]
  · rw [number_toValue_string hstring, numberText_of_isWhole hlong.whole, hlong.toInt64_eq]

/-- The double of 10^21. -/
def sextillion : Double := ⟨0x444B1AE4D6E2EF50⟩

/-- It is stored as the greatest integer of 64 bits, and as the text of this. -/
theorem sextillion_unfaithful :
    (¬ Faithful sextillion .integer ∧ (Operand.number sextillion).toValue .integer =
      .ok (.int64 0x7FFFFFFFFFFFFFFF)) ∧
    ¬ Faithful sextillion .list ∧ (Operand.number sextillion).toValue .list =
      .ok (.string "9223372036854775807") := by
  have hlong : sextillion.Overlong := by
    refine ⟨by decide +kernel, ?_⟩
    rw [Double.isInt64_iff]
    decide +kernel
  refine ⟨⟨fun h => ?_, ?_⟩, fun h => ?_, ?_⟩
  · exact (number_faithful_iff sextillion .integer).1.mp h ⟨hlong, .inl rfl⟩
  · rw [(number_faithful_iff sextillion .integer).2.2.1 hlong rfl]
    exact congrArg (fun n => Except.ok (Value.int64 n)) (by decide +kernel)
  · exact (number_faithful_iff sextillion .list).1.mp h ⟨hlong, .inr rfl⟩
  · rw [(number_faithful_iff sextillion .list).2.2.2 hlong rfl]
    exact congrArg (fun t => Except.ok (Value.string t)) (by decide +kernel)

end Operand

end Registrar
