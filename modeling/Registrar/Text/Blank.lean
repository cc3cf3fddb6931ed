/-!
# Blank characters

A text from outside is read without the **blank** characters around it: the twenty-five code
points that Unicode calls white space. This is wider than the blank, tab and line ends of ASCII,
and it leaves out the zero-width space.

* `isBlank_of_isWhitespace`: the ASCII white space is among them.
* `trimLeft_trimLeft`: a trimmed beginning stays as it is.
* `trimChars_eq_nil_iff`: what trims to nothing is blank throughout.
-/

namespace Registrar.Text

/-- A **blank** is one of the code points with the property White_Space. -/
def isBlank (c : Char) : Bool :=
  let n := c.toNat
  (9 ≤ n && n ≤ 13) || n == 0x20 || n == 0x85 || n == 0xA0 || n == 0x1680 ||
    (0x2000 ≤ n && n ≤ 0x200A) || n == 0x2028 || n == 0x2029 || n == 0x202F || n == 0x205F ||
    n == 0x3000

/-- **The rest after the leading blanks.** -/
def trimLeft (cs : List Char) : List Char := cs.dropWhile isBlank

/-- **The text without the blanks around it.** -/
def trimChars (cs : List Char) : List Char := (trimLeft (trimLeft cs).reverse).reverse

/-- `trimChars` on strings. -/
def trim (s : String) : String := String.ofList (trimChars s.toList)

/-- A text with nothing but blanks. -/
def isBlankText (s : String) : Bool := (trimChars s.toList).isEmpty

/-! ### Laws -/

theorem isBlank_of_isWhitespace {c : Char} (h : c.isWhitespace = true) : isBlank c = true := by
  simp only [Char.isWhitespace, Bool.or_eq_true, decide_eq_true_eq] at h
  rcases h with ((rfl | rfl) | rfl) | rfl <;> decide

@[simp] theorem toList_trim (s : String) : (trim s).toList = trimChars s.toList := by
  simp [trim]

theorem trimLeft_cases (cs : List Char) :
    trimLeft cs = [] ∨ ∃ c ds, trimLeft cs = c :: ds ∧ isBlank c = false := by
  induction cs with
  | nil => exact .inl rfl
  | cons b cs ih =>
    cases hb : isBlank b
    · exact .inr ⟨b, cs, by simp [trimLeft, hb], hb⟩
    · simpa [trimLeft, List.dropWhile, hb] using ih

theorem trimLeft_trimLeft (cs : List Char) : trimLeft (trimLeft cs) = trimLeft cs := by
  rcases trimLeft_cases cs with h | ⟨c, ds, h, hc⟩
  · rw [h]; rfl
  · rw [h]; simp [trimLeft, hc]

theorem trimLeft_eq_nil_iff {cs : List Char} : trimLeft cs = [] ↔ ∀ c ∈ cs, isBlank c = true := by
  induction cs with
  | nil => simp [trimLeft]
  | cons b cs ih =>
    cases hb : isBlank b
    · simp [trimLeft, hb]
    · simpa [trimLeft, List.dropWhile, hb] using ih

/-- **What trims to nothing is blank throughout.** -/
theorem trimChars_eq_nil_iff {cs : List Char} :
    trimChars cs = [] ↔ ∀ c ∈ cs, isBlank c = true := by
  rw [trimChars, List.reverse_eq_nil_iff, trimLeft_eq_nil_iff]
  rcases trimLeft_cases cs with h | ⟨c, ds, h, hc⟩
  · simpa [h] using trimLeft_eq_nil_iff.1 h
  · constructor
    · intro hall
      have := hall c (by simp [h])
      simp [hc] at this
    · intro hall
      have := trimLeft_eq_nil_iff.2 hall
      simp [h] at this

end Registrar.Text
