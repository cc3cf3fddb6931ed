import Registrar.Text.Ranges
import Registrar.Text.ShapeTable

/-!
# Quoted texts

A message shows a text between double quotes. Quotes and backslashes in it are escaped, so that the
text ends where the quotes do, and so are the characters that a reader would not see: each of them
is shown by its number.

* `Text.quoted`: the text between quotes.
* `quotedChar_of_plain`: every other character stands for itself.
* `isHidden_of_ascii`: ASCII hides nothing but its control characters.
-/

namespace Registrar.Text

/-- **Whether a reader would not see a character**: it has no shape, or it only changes the one
before it. -/
def isHidden (c : Char) : Bool := inRanges shapeless c.toNat || inRanges extending c.toNat

/-- A character by its number. -/
def numberedChar (c : Char) : List Char :=
  "\\u\x7b".toList ++ Nat.toDigits 16 c.toNat ++ ['\x7d']

/-- What stands for a character between quotes. -/
def quotedChar (c : Char) : List Char :=
  if c = '"' ∨ c = '\\' then ['\\', c]
  else if c = '\n' then ['\\', 'n']
  else if c = '\r' then ['\\', 'r']
  else if c = '\t' then ['\\', 't']
  else if c = '\x00' then ['\\', '0']
  else if isHidden c then numberedChar c
  else [c]

/-- **The text between quotes.** -/
def quoted (s : String) : String :=
  String.ofList (['"'] ++ s.toList.flatMap quotedChar ++ ['"'])

/-! ### Laws -/

theorem quotedChar_of_plain {c : Char} (h : isHidden c = false) (hq : c ≠ '"') (hb : c ≠ '\\') :
    quotedChar c = [c] := by
  have hidden {d : Char} (hd : isHidden d = true) : c ≠ d := fun e => by simp [e, hd] at h
  simp [quotedChar, hq, hb, h, hidden (show isHidden '\n' = true by decide),
    hidden (show isHidden '\r' = true by decide), hidden (show isHidden '\t' = true by decide),
    hidden (show isHidden '\x00' = true by decide)]

theorem isHidden_of_ascii {c : Char} (least : 0x20 ≤ c.toNat) (most : c.toNat < 0x7F) :
    isHidden c = false := by
  have first : shapeless = (0, 0x1F) :: shapeless.tail := rfl
  have others : inRanges shapeless.tail c.toNat = false :=
    inRanges_of_lt (by decide +kernel) most
  have marks : inRanges extending c.toNat = false := inRanges_of_lt (by decide +kernel) most
  rw [isHidden, marks, first, inRanges_cons, others]
  simp
  omega

end Registrar.Text
