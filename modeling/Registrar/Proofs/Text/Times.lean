import Mathlib.Data.List.TakeWhile
import Mathlib.Data.Nat.Digits.Defs
import Mathlib.Tactic.IntervalCases
import Registrar.Calendar

/-!
# Times are read as they are spelled

A time is spelled by the date of its day and the numbers of its clock, each with a fixed count of
digits. Reading goes back over the same numbers: the digits denote them again, and the day number of
a date is the day whose date it is. The date of a day number is found without a search, from the
place of the day in its 400 years; that the place is right is told from its century, its four
years, its year and its day.

* `exists_inEra`: the year and the day that are computed for a day of 400 years.
* `dayNumber_civil`, `isValid_civil`: dates and day numbers.
* `Text.Denotes`, `denotes_padded`: a number written with a count of digits.
* `parseSpelled?_spelled`: **a time before the year 10000 is read as it is spelled**.
-/

namespace Registrar

/-! ### Digits -/

namespace Text

theorem natOfDigits_eq (ds : List Char) : natOfDigits ds = Nat.ofDigitChars 10 ds 0 := rfl

theorem natOfDigits_append (as bs : List Char) :
    natOfDigits (as ++ bs) = 10 ^ bs.length * natOfDigits as + natOfDigits bs := by
  rw [natOfDigits_eq, Nat.ofDigitChars_append, Nat.ofDigitChars_eq_ofDigitChars_zero]
  rfl

theorem natOfDigits_append_zeros (ds : List Char) (k : Nat) :
    natOfDigits (ds ++ List.replicate k '0') = natOfDigits ds * tenTo k := by
  rw [natOfDigits_append, List.length_replicate, natOfDigits_eq (List.replicate k '0'),
    Nat.ofDigitChars_replicate_zero, Nat.mul_zero, Nat.add_zero, Nat.mul_comm]
  rfl

theorem natOfDigits_zeros_append (ds : List Char) (k : Nat) :
    natOfDigits (List.replicate k '0' ++ ds) = natOfDigits ds := by
  rw [natOfDigits_append, natOfDigits_eq (List.replicate k '0'), Nat.ofDigitChars_replicate_zero,
    Nat.mul_zero, Nat.mul_zero, Nat.zero_add]

/-- **Digits of a number** with zeros before them. -/
structure Denotes (ds : List Char) (width n : Nat) : Prop where
  length : ds.length = width
  digits : ∀ c ∈ ds, isDigit c = true
  number : natOfDigits ds = n

end Text

namespace Calendar

/-- **A number that is short enough** is written with that count of digits. -/
theorem denotes_padded {width n : Nat} (hw : 0 < width) (h : n < 10 ^ width) :
    Text.Denotes (padded width n).toList width n := by
  have hlength := (Nat.length_toDigits_le_iff (by decide) hw).mpr h
  rw [padded, String.toList_ofList]
  refine ⟨by rw [List.length_append, List.length_replicate]; omega, fun c hc => ?_, ?_⟩
  · rcases List.mem_append.mp hc with hc | hc
    · rw [List.eq_of_mem_replicate hc]
      rfl
    · exact Nat.isDigit_of_mem_toDigits (by decide) (by decide) hc
  · rw [Text.natOfDigits_zeros_append, Text.natOfDigits_eq, Nat.ofDigitChars_ten_toDigits]

theorem takeDigits?_append {ds rest : List Char} {width n : Nat} (h : Text.Denotes ds width n) :
    takeDigits? width width (ds ++ rest) = some (n, rest) := by
  have htake : ((ds ++ rest).takeWhile Text.isDigit).take width = ds := by
    rw [List.takeWhile_append_of_pos h.digits, ← h.length, List.take_left']
    rfl
  rw [takeDigits?, htake, if_neg (by rw [h.length]; exact Nat.lt_irrefl _), h.number,
    List.drop_left']
  rfl

/-! ### Days -/

/-- **The place of a day** among the days of 400 years: its year, and its day in this year. -/
structure InEra (n year day : Nat) : Prop where
  year_lt : year < 400
  day_le : day ≤ 365
  start : n = 365 * year + year / 4 - year / 100 + day
  leap : day = 365 → (year + 1) % 4 = 0 ∧ ((year + 1) % 100 ≠ 0 ∨ year = 399)

/-- **The year that is computed** for a day of 400 years is the one in which it lies. -/
theorem exists_inEra {n : Nat} (h : n < 146097) :
    ∃ day, InEra n ((n - n / 1460 + n / 36524 - n / 146096) / 365) day := by
  -- A century, four years of it, one of these years, and a day of it.
  obtain ⟨c, hc, hcentury⟩ : ∃ c ≤ 3, 36524 * c ≤ n ∧ (n < 36524 * (c + 1) ∨ c = 3) :=
    ⟨min (n / 36524) 3, by omega, by omega, by omega⟩
  obtain ⟨q, hq⟩ : ∃ q, q = (n - 36524 * c) / 1461 := ⟨_, rfl⟩
  obtain ⟨y, hy, hyear⟩ : ∃ y ≤ 3, 365 * y ≤ n - 36524 * c - 1461 * q ∧
      (n - 36524 * c - 1461 * q < 365 * (y + 1) ∨ y = 3) :=
    ⟨min ((n - 36524 * c - 1461 * q) / 365) 3, by omega, by omega, by omega⟩
  obtain ⟨d, hd⟩ : ∃ d, n = 36524 * c + 1461 * q + 365 * y + d :=
    ⟨n - (36524 * c + 1461 * q + 365 * y), by omega⟩
  have hq24 : q ≤ 24 := by omega
  have hday : d ≤ 364 ∨ d = 365 ∧ y = 3 ∧ (q ≤ 23 ∨ c = 3) := by omega
  clear hq hyear hcentury
  have hyears : (n - n / 1460 + n / 36524 - n / 146096) / 365 = 100 * c + 4 * q + y := by
    have hquads : n / 1460 = 25 * c + q ∧ d ≤ 364 ∨ n / 1460 = 25 * c + q + 1 ∧ 1 ≤ d := by
      omega
    have hcenturies : n / 36524 = c ∧ n / 146096 = 0 ∨ n / 36524 = 4 ∧ n / 146096 = 1 ∧ c = 3 := by
      rcases hday with hday | ⟨rfl, rfl, hday | rfl⟩ <;> omega
    rcases hquads with ⟨hquads, hd'⟩ | ⟨hquads, hd'⟩ <;>
      rcases hcenturies with ⟨hcenturies, hera⟩ | ⟨hcenturies, hera, rfl⟩ <;>
        rw [hquads, hcenturies, hera] <;> omega
  rw [hyears]
  have hfour : (100 * c + 4 * q + y) / 4 = 25 * c + q := by omega
  have hhundred : (100 * c + 4 * q + y) / 100 = c := by omega
  refine ⟨d, by omega, by omega, by rw [hfour, hhundred]; omega, by omega⟩

/-- **The date of a day number** is found by its era, its year in this and its day in the year. -/
theorem civil_eq (n : Int) : ∃ year day, InEra ((n + 719468) % 146097).toNat year day ∧
    civil n = ⟨year + 400 * ((n + 719468) / 146097) + (if day ≤ 305 then 0 else 1),
      if day ≤ 305 then (5 * day + 2) / 153 + 3 else (5 * day + 2) / 153 - 9,
      day - (153 * ((5 * day + 2) / 153) + 2) / 5 + 1⟩ := by
  obtain ⟨day, h⟩ := exists_inEra (n := ((n + 719468) % 146097).toNat) (by omega)
  refine ⟨_, day, h, ?_⟩
  rw [civil]
  generalize (n + 719468) / 146097 = era at *
  generalize ((n + 719468) % 146097).toNat = m at *
  generalize (m - m / 1460 + m / 36524 - m / 146096) / 365 = year at *
  have hday : m - (365 * year + year / 4 - year / 100) = day := by
    have := h.start
    omega
  simp only [hday]
  have hle := h.day_le
  by_cases hsplit : day ≤ 305
  · have hm : (5 * day + 2) / 153 < 10 := by omega
    simp only [hsplit, hm, if_true]
    rw [if_neg (by omega)]
  · have hm : ¬ (5 * day + 2) / 153 < 10 := by omega
    simp only [hsplit, hm, if_false]
    rw [if_pos (by omega)]

/-- **A day number is that of its date.** -/
theorem dayNumber_civil (n : Int) : dayNumber (civil n) = n := by
  obtain ⟨year, day, h, hcivil⟩ := civil_eq n
  have hstart := h.start
  have hyear := h.year_lt
  have hday := h.day_le
  rw [hcivil, dayNumber]
  generalize hera : (n + 719468) / 146097 = era
  have hn : n = 146097 * era + (365 * year + year / 4 - year / 100 + day) - 719468 := by omega
  have hfour : (year + 400 * era) / 4 = year / 4 + 100 * era := by omega
  have hhundred : (year + 400 * era) / 100 = year / 100 + 4 * era := by omega
  have hcycle : (year + 400 * era) / 400 = era := by omega
  by_cases hsplit : day ≤ 305
  · have hmonth : ¬ (5 * day + 2) / 153 + 3 ≤ 2 := by omega
    simp only [hsplit, hmonth, if_true, if_false, Int.add_zero, Nat.add_sub_cancel, hfour, hhundred,
      hcycle]
    omega
  · have hmonth : (5 * day + 2) / 153 - 9 ≤ 2 := by omega
    have hback : (5 * day + 2) / 153 - 9 + 9 = (5 * day + 2) / 153 := by omega
    simp only [hsplit, hmonth, if_true, if_false, Int.add_sub_cancel, hback, hfour, hhundred,
      hcycle]
    omega

theorem InEra.isLeapYear {n year day : Nat} (h : InEra n year day) (hday : day = 365) (era : Int) :
    isLeapYear (year + 400 * era + 1) = true := by
  obtain ⟨hfour, hhundred⟩ := h.leap hday
  have hyear := h.year_lt
  have h4 : (year + 400 * era + 1) % 4 = 0 := by omega
  rw [Calendar.isLeapYear, h4]
  rcases hhundred with hhundred | rfl
  · have h100 : (year + 400 * era + 1) % 100 ≠ 0 := by omega
    simp [h100]
  · rw [Bool.or_eq_true]
    exact .inr (beq_iff_eq.mpr (by omega))

theorem isValid_civil {n : Int} (h : yearInRange (civil n).year = true) :
    (civil n).isValid = true := by
  obtain ⟨year, day, hera, hcivil⟩ := civil_eq n
  have hle := hera.day_le
  have hleap := fun hday => hera.isLeapYear hday ((n + 719468) / 146097)
  obtain ⟨k, hk⟩ : ∃ k, k = (5 * day + 2) / 153 := ⟨_, rfl⟩
  rw [Date.isValid, h]
  rw [hcivil, ← hk]
  generalize (n + 719468) / 146097 = era at hleap
  clear hcivil h hera
  -- Each month begins at a fixed day, so only the number of the month is looked at.
  simp only [Bool.true_and, Bool.and_eq_true, decide_eq_true_iff]
  by_cases hsplit : day ≤ 305
  · have hmonths : k ≤ 9 := by omega
    simp only [hsplit, if_true]
    interval_cases k <;> simp only [daysInMonth] <;> omega
  · have hmonths : k = 10 ∨ k = 11 := by omega
    simp only [hsplit, if_false]
    rcases hmonths with rfl | rfl
    · simp only [daysInMonth]
      omega
    · by_cases hlast : day = 365
      · simp only [daysInMonth, hleap hlast, if_true]
        omega
      · simp only [daysInMonth]
        split <;> omega

theorem year_civil {n : Int} (h0 : 0 ≤ n) (h : n < 2932897) :
    0 ≤ (civil n).year ∧ (civil n).year ≤ 9999 := by
  obtain ⟨year, day, hera, hcivil⟩ := civil_eq n
  have hstart := hera.start
  have hyear := hera.year_lt
  have hday := hera.day_le
  rw [hcivil]
  constructor
  · dsimp only
    split <;> omega
  · dsimp only
    split <;> omega

/-! ### Timestamps -/

theorem expect?_cons (c : Char) (cs : List Char) : expect? c (c :: cs) = some cs := if_pos rfl

theorem exists_zeros (ds : List Char) :
    ∃ k, ds = (ds.reverse.dropWhile (· = '0')).reverse ++ List.replicate k '0' := by
  refine ⟨(ds.reverse.takeWhile (· = '0')).length, ?_⟩
  have hzeros : ds.reverse.takeWhile (· = '0') =
      List.replicate (ds.reverse.takeWhile (· = '0')).length '0' :=
    List.eq_replicate_of_mem fun c hc => by simpa using List.mem_takeWhile_imp hc
  rw [← List.reverse_replicate, ← hzeros, ← List.reverse_append, List.takeWhile_append_dropWhile,
    List.reverse_reverse]

/-- **A fraction** is read without the zeros at its end, too. -/
theorem takeFraction?_spelled {n : Nat} (hn : n ≠ 0) (h : n < 1000) :
    takeFraction? ('.' :: (((padded 3 n).toList.reverse.dropWhile (· = '0')).reverse ++ ['Z'])) =
      some (n * 1000000, ['Z']) := by
  obtain ⟨hlength, hdigits, hnumber⟩ : Text.Denotes (padded 3 n).toList 3 n :=
    denotes_padded (by decide) h
  obtain ⟨k, hk⟩ := exists_zeros (padded 3 n).toList
  generalize (padded 3 n).toList = ds at hlength hdigits hnumber hk
  generalize (ds.reverse.dropWhile (· = '0')).reverse = shown at hk
  subst hk
  rw [List.length_append, List.length_replicate] at hlength
  rw [Text.natOfDigits_append_zeros] at hnumber
  have hshown : (shown ++ ['Z']).takeWhile Text.isDigit = shown := by
    rw [List.takeWhile_append_of_pos fun c hc => hdigits c (List.mem_append_left _ hc)]
    simp [Text.isDigit]
  have hne : shown ≠ [] := by
    rintro rfl
    exact hn (hnumber.symm.trans (Nat.zero_mul _))
  simp only [takeFraction?, hshown, List.isEmpty_iff, hne, if_false, List.drop_left]
  rw [List.take_of_length_le (by omega), ← hnumber, show 9 - shown.length = k + 6 by omega]
  refine congrArg (fun n => some (n, ['Z'])) ?_
  change Text.natOfDigits shown * 10 ^ (k + 6) = Text.natOfDigits shown * 10 ^ k * 1000000
  rw [Nat.pow_add, Nat.mul_assoc]

/-- **A timestamp is read** from the digits of its numbers and what follows them. -/
theorem parseStamp?_eq (rules : StampRules) {y mo d h mi se tail rest : List Char}
    {date : Date} {year hour minute second nanos : Nat} {offset : Int}
    (hy : Text.Denotes y 4 year) (hmo : Text.Denotes mo 2 date.month)
    (hd : Text.Denotes d 2 date.day) (hh : Text.Denotes h 2 hour) (hmi : Text.Denotes mi 2 minute)
    (hse : Text.Denotes se 2 second) (hyear : date.year = year)
    (htail : takeFraction? tail = some (nanos, rest))
    (hoffset : takeOffset? rules rest = some (offset, []))
    (hrules : rules.separates 'T' = true) (hvalid : date.isValid = true) (hhour : hour ≤ 23)
    (hminute : minute ≤ 59) (hsecond : second ≤ 60) :
    parseStamp? rules (y ++ '-' :: (mo ++ '-' :: (d ++ 'T' :: (h ++ ':' :: (mi ++ ':' ::
      (se ++ tail)))))) =
        some ⟨dayNumber date * 86400 + hour * 3600 + minute * 60 - offset, second, nanos⟩ := by
  obtain ⟨_, month, day⟩ := date
  obtain rfl : _ = _ := hyear
  have step {α β : Type} {x : Option α} {a : α} {f : α → Option β} {b : β} (hx : x = some a)
      (hf : f a = some b) : x.bind f = some b := hx ▸ hf
  refine step (takeDigits?_append hy) (step (expect?_cons _ _) (step (takeDigits?_append hmo)
    (step (expect?_cons _ _) (step (takeDigits?_append hd) (step rfl ?_)))))
  refine step (takeDigits?_append hh) (step (expect?_cons _ _) (step (takeDigits?_append hmi)
    (step (expect?_cons _ _) (step (takeDigits?_append hse) (step htail (step hoffset ?_))))))
  exact if_pos ⟨hrules, rfl, hvalid, hhour, hminute, hsecond⟩

theorem toList_textToSecond (seconds : Int) (tail : List Char) :
    (textToSecond seconds).toList ++ tail =
      (yearText (civil (seconds / 86400)).year).toList ++ '-' ::
        ((padded 2 (civil (seconds / 86400)).month).toList ++ '-' ::
          ((padded 2 (civil (seconds / 86400)).day).toList ++ 'T' ::
            ((padded 2 ((seconds % 86400).toNat / 3600)).toList ++ ':' ::
              ((padded 2 ((seconds % 86400).toNat / 60 % 60)).toList ++ ':' ::
                ((padded 2 ((seconds % 86400).toNat % 60)).toList ++ tail))))) := by
  simp [textToSecond]

theorem daysInMonth_le (year : Int) (month : Nat) : daysInMonth year month ≤ 31 := by
  unfold daysInMonth
  split
  · split <;> decide
  all_goals decide

/-- **A time before the year 10000 is read as it is spelled.** -/
theorem parseSpelled?_spelled {ms : Int} (h0 : 0 ≤ ms) (h : ms < fiveDigitYears) :
    parseSpelled? (spelled ms) = some ms := by
  rw [fiveDigitYears] at h
  obtain ⟨hleast, hmost⟩ := year_civil (n := ms / 1000 / 86400) (by omega) (by omega)
  have hvalid : (civil (ms / 1000 / 86400)).isValid = true := isValid_civil (by
    rw [yearInRange, Bool.and_eq_true, decide_eq_true_iff, decide_eq_true_iff]
    omega)
  have hday := dayNumber_civil (ms / 1000 / 86400)
  generalize hdate : civil (ms / 1000 / 86400) = date at hleast hmost hvalid hday
  have hyear : Text.Denotes (yearText date.year).toList 4 date.year.toNat := by
    rw [yearText, if_pos ⟨hleast, hmost⟩]
    exact denotes_padded (by decide) (by omega)
  have hmonth : date.month < 10 ^ 2 ∧ date.day < 10 ^ 2 := by
    have hle := daysInMonth_le date.year date.month
    simp only [Date.isValid, Bool.and_eq_true, decide_eq_true_iff] at hvalid
    omega
  -- The fraction is that of the milliseconds, shown or not.
  obtain ⟨tail, htext, htail⟩ : ∃ tail, (spelled ms).toList =
      (textToSecond (ms / 1000)).toList ++ tail ∧
        takeFraction? tail = some ((ms % 1000).toNat * 1000000, ['Z']) := by
    by_cases hrest : (ms % 1000).toNat = 0
    · exact ⟨['Z'], by simp [spelled, hrest], by rw [hrest]; rfl⟩
    · exact ⟨_, by simp [spelled, hrest], takeFraction?_spelled hrest (by omega)⟩
  have hstamp := parseStamp?_eq spelledRules hyear (denotes_padded (by decide) hmonth.1)
    (denotes_padded (by decide) hmonth.2)
    (denotes_padded (n := (ms / 1000 % 86400).toNat / 3600) (by decide) (by omega))
    (denotes_padded (n := (ms / 1000 % 86400).toNat / 60 % 60) (by decide) (by omega))
    (denotes_padded (n := (ms / 1000 % 86400).toNat % 60) (by decide) (by omega))
    (by omega) htail rfl rfl hvalid (by omega) (by omega) (by omega)
  rw [parseSpelled?, htext, toList_textToSecond, hdate, hstamp]
  have hsecond : (ms / 1000 % 86400).toNat % 60 ≤ 59 := by omega
  refine (if_pos hsecond).trans (congrArg some ?_)
  have htotal : Stamp.total ⟨dayNumber date * 86400 +
      ((ms / 1000 % 86400).toNat / 3600 : Nat) * 3600 +
      ((ms / 1000 % 86400).toNat / 60 % 60 : Nat) * 60 - 0, (ms / 1000 % 86400).toNat % 60,
      (ms % 1000).toNat * 1000000⟩ = ms * 1000000 := by
    rw [Stamp.total, hday]
    dsimp only
    omega
  rw [htotal, Int.tdiv_eq_ediv_of_nonneg (by omega)]
  omega

end Calendar

end Registrar
