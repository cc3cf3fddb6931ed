/-!
# Dotted texts

A **path** is a text whose segments stand between dots. There is one segment more than there are
dots, so the empty text is the one empty segment.

* `splitDots_ne_nil`: a text has a first segment.
* `length_splitDots`: the number of segments is the number of dots plus one.
* `cutDot_none_iff`: a text cannot be cut exactly when it has no dot.
-/

namespace Registrar.Text

/-- **The segments between the dots**, left to right. -/
def splitDots : List Char → List (List Char)
  | [] => [[]]
  | c :: cs =>
    if c = '.' then [] :: splitDots cs
    else match splitDots cs with
      | [] => [[c]]
      | s :: r => (c :: s) :: r

/-- **The segments of a path.** -/
def segments (path : String) : List String := (splitDots path.toList).map String.ofList

/-- The text before the first dot. -/
def headSegment (path : String) : String := String.ofList (path.toList.takeWhile (· ≠ '.'))

/-- **Cuts a text at its first dot**; `none` when it has no dot. -/
def cutDot : List Char → Option (List Char × List Char)
  | [] => none
  | c :: cs => if c = '.' then some ([], cs) else (cutDot cs).map fun (h, t) => (c :: h, t)

/-- `cutDot` on strings. -/
def cutPath (path : String) : Option (String × String) :=
  (cutDot path.toList).map fun (h, t) => (String.ofList h, String.ofList t)

/-! ### Laws -/

theorem splitDots_ne_nil (cs : List Char) : splitDots cs ≠ [] := by
  cases cs with
  | nil => simp [splitDots]
  | cons c cs => simp only [splitDots]; split <;> (try split) <;> simp

theorem length_splitDots (cs : List Char) : (splitDots cs).length = cs.count '.' + 1 := by
  induction cs with
  | nil => rfl
  | cons c cs ih =>
    by_cases h : c = '.'
    · simp [splitDots, h, ih]
    · have hne := splitDots_ne_nil cs
      cases hs : splitDots cs with
      | nil => exact absurd hs hne
      | cons s r => simp_all [splitDots]

theorem cutDot_none_iff {cs : List Char} : cutDot cs = none ↔ '.' ∉ cs := by
  induction cs with
  | nil => simp [cutDot]
  | cons c cs ih =>
    by_cases h : c = '.'
    · simp [cutDot, h]
    · simp [cutDot, h, ih, Ne.symm h]

end Registrar.Text
