import Registrar.Text.CaseTable
import Registrar.Text.Ranges

/-!
# Lower case

Texts are compared without regard to case by comparing their lower-case forms. A capital becomes
its small letter, the dotted capital I becomes a small i and a combining dot, and a capital sigma
becomes ς at the end of a word and σ elsewhere. A character without a small form stays.

* `Text.lower`: the lower-case form of a text.
* `lowerFrom_ascii`: on ASCII texts every letter is mapped by itself.
-/

namespace Registrar.Text

/-- The small letter that the run assigns to a code point. -/
def LowerRun.apply? (r : LowerRun) (n : Nat) : Option Char :=
  if r.first ≤ n ∧ n ≤ r.last ∧ (n - r.first) % r.step = 0 then
    some (Char.ofNat (Int.toNat (n + r.shift)))
  else none

/-- **The small form of one character**, without regard to its neighbours. -/
def lowerChar (c : Char) : List Char :=
  if c.toNat < 0x80 then
    if 'A' ≤ c ∧ c ≤ 'Z' then [Char.ofNat (c.toNat + 32)] else [c]
  else if c.toNat = 0x130 then [Char.ofNat 0x69, Char.ofNat 0x307]
  else [(lowerRuns.findSome? fun r => r.apply? c.toNat).getD c]

def isCaseIgnorable (c : Char) : Bool := inRanges caseIgnorable c.toNat

def isCased (c : Char) : Bool := inRanges casedLetters c.toNat

/-- Whether the first character that is not case-ignorable is a cased letter. -/
def meetsCased (cs : List Char) : Bool :=
  match cs.dropWhile isCaseIgnorable with
  | [] => false
  | c :: _ => isCased c

/-- **Lower case**, `before` being the characters already passed, last first. A capital sigma is
final when a letter stands before it and none after it, marks and signs not counting. -/
def lowerFrom (before : List Char) : List Char → List Char
  | [] => []
  | c :: cs =>
    let here :=
      if c.toNat = 0x3A3 then
        [Char.ofNat (if meetsCased before && !meetsCased cs then 0x3C2 else 0x3C3)]
      else lowerChar c
    here ++ lowerFrom (c :: before) cs

/-- **The lower-case form of a text.** -/
def lower (s : String) : String := String.ofList (lowerFrom [] s.toList)

/-- The small form of an ASCII letter; any other character stays. -/
def lowerAscii (c : Char) : Char :=
  if 'A' ≤ c ∧ c ≤ 'Z' then Char.ofNat (c.toNat + 32) else c

/-! ### Laws -/

theorem lowerChar_ascii {c : Char} (h : c.toNat < 0x80) : lowerChar c = [lowerAscii c] := by
  simp only [lowerChar, h, if_true, lowerAscii]
  split <;> rfl

theorem lowerFrom_ascii {cs : List Char} (h : ∀ c ∈ cs, c.toNat < 0x80) (before : List Char) :
    lowerFrom before cs = cs.map lowerAscii := by
  induction cs generalizing before with
  | nil => rfl
  | cons c cs ih =>
    have hc := h c (by simp)
    have hs : c.toNat ≠ 0x3A3 := by omega
    simp [lowerFrom, hs, lowerChar_ascii hc, ih (fun d hd => h d (by simp [hd]))]

end Registrar.Text
