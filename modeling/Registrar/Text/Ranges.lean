/-!
# Ranges of code points

A class of characters is given by the ranges of its code points, both ends included.

* `Text.inRanges`: whether a code point belongs to the class.
-/

namespace Registrar.Text

/-- **Whether a code point lies in one of the ranges.** -/
def inRanges (ranges : List (Nat × Nat)) (n : Nat) : Bool :=
  ranges.any fun r => r.1 ≤ n && n ≤ r.2

theorem inRanges_cons (r : Nat × Nat) (ranges : List (Nat × Nat)) (n : Nat) :
    inRanges (r :: ranges) n = ((r.1 ≤ n && n ≤ r.2) || inRanges ranges n) := rfl

theorem inRanges_of_lt {ranges : List (Nat × Nat)} {least n : Nat}
    (starts : ranges.all (fun r => least ≤ r.1) = true) (h : n < least) :
    inRanges ranges n = false := by
  simp only [inRanges, List.any_eq_false, List.all_eq_true, decide_eq_true_eq] at starts ⊢
  intro r hr
  have := starts r hr
  simp
  omega

end Registrar.Text
