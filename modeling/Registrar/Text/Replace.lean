/-!
# Replacing parts of a text

Every occurrence of a part is replaced, from left to right; occurrences do not overlap, and what is
put in is not searched again.

* `replaceAll`: the replaced text.
-/

namespace Registrar.Text

/-- Replaces the occurrences of a part, after passing over some characters. -/
def replaceFrom (part replacement : List Char) : Nat → List Char → List Char
  | _, [] => []
  | skip + 1, _ :: cs => replaceFrom part replacement skip cs
  | 0, c :: cs =>
    if part.isPrefixOf (c :: cs) then
      replacement ++ replaceFrom part replacement (part.length - 1) cs
    else c :: replaceFrom part replacement 0 cs

/-- **Replaces every occurrence** of a part that is not empty. -/
def replaceAll (part replacement cs : List Char) : List Char := replaceFrom part replacement 0 cs

end Registrar.Text
