/-!
# Bytes in base 64

Three bytes are written as four characters of six bits each. Equal signs fill up the last group,
and the bits that they leave unused are zero.

* `Base64.decode?`: the bytes that a text denotes.
* `Base64.encode`: the text of bytes.
* `Base64.decode?_encode`: encoding loses nothing.
-/

namespace Registrar.Base64

/-- The characters by the numbers that they stand for. -/
def alphabet : List Char :=
  "ABCDEFGHIJKLMNOPQRSTUVWXYZabcdefghijklmnopqrstuvwxyz0123456789+/".toList

def digit (n : Nat) : Char := alphabet.getD n '='

def value? (c : Char) : Option Nat := alphabet.idxOf? c

/-- **The text of bytes.** -/
def encode : List UInt8 → List Char
  | [] => []
  | [a] => [digit (a.toNat / 4), digit (a.toNat % 4 * 16), '=', '=']
  | [a, b] =>
    [digit (a.toNat / 4), digit (a.toNat % 4 * 16 + b.toNat / 16), digit (b.toNat % 16 * 4), '=']
  | a :: b :: c :: r =>
    digit (a.toNat / 4) :: digit (a.toNat % 4 * 16 + b.toNat / 16) ::
      digit (b.toNat % 16 * 4 + c.toNat / 64) :: digit (c.toNat % 64) :: encode r

/-- The first byte of a group. -/
def first (x y : Nat) : UInt8 := UInt8.ofNat (x * 4 + y / 16)

/-- The second byte of a group. -/
def second (y z : Nat) : UInt8 := UInt8.ofNat (y % 16 * 16 + z / 4)

/-- The third byte of a group. -/
def third (z w : Nat) : UInt8 := UInt8.ofNat (z % 4 * 64 + w)

/-- **The bytes that a text denotes.** -/
def decode? : List Char → Option (List UInt8)
  | [] => some []
  | [a, b, '=', '='] => do
    let x ← value? a
    let y ← value? b
    if y % 16 = 0 then some [first x y] else none
  | [a, b, c, '='] => do
    let x ← value? a
    let y ← value? b
    let z ← value? c
    if z % 4 = 0 then some [first x y, second y z] else none
  | a :: b :: c :: d :: r => do
    let x ← value? a
    let y ← value? b
    let z ← value? c
    let w ← value? d
    return first x y :: second y z :: third z w :: (← decode? r)
  | _ => none

/-! ### Laws -/

theorem value?_digit : ∀ n < 64, value? (digit n) = some n := by decide +kernel

theorem digit_ne_fill : ∀ n < 64, digit n ≠ '=' := by decide +kernel

theorem first_eq (a : UInt8) {n : Nat} (h : n < 16) :
    first (a.toNat / 4) (a.toNat % 4 * 16 + n) = a := by
  apply UInt8.toNat_inj.mp
  have := a.toNat_lt
  simp only [first, UInt8.toNat_ofNat']
  omega

theorem second_eq (a b : UInt8) {n : Nat} (h : n < 4) :
    second (a.toNat % 4 * 16 + b.toNat / 16) (b.toNat % 16 * 4 + n) = b := by
  apply UInt8.toNat_inj.mp
  have := b.toNat_lt
  simp only [second, UInt8.toNat_ofNat']
  omega

theorem third_eq (b c : UInt8) :
    third (b.toNat % 16 * 4 + c.toNat / 64) (c.toNat % 64) = c := by
  apply UInt8.toNat_inj.mp
  have := c.toNat_lt
  simp only [third, UInt8.toNat_ofNat']
  omega

theorem decode?_encode (bytes : List UInt8) : decode? (encode bytes) = some bytes := by
  fun_induction encode bytes with
  | case1 => rfl
  | case2 a =>
    have ha := a.toNat_lt
    have hx := value?_digit (a.toNat / 4) (by omega)
    have hy := value?_digit (a.toNat % 4 * 16) (by omega)
    simpa [decode?, hx, hy] using first_eq a (show 0 < 16 by decide)
  | case3 a b =>
    have ha := a.toNat_lt
    have hb := b.toNat_lt
    have hx := value?_digit (a.toNat / 4) (by omega)
    have hy := value?_digit (a.toNat % 4 * 16 + b.toNat / 16) (by omega)
    have hz := value?_digit (b.toNat % 16 * 4) (by omega)
    have hc := digit_ne_fill (b.toNat % 16 * 4) (by omega)
    simpa [decode?, hx, hy, hz, hc] using
      ⟨first_eq a (show b.toNat / 16 < 16 by omega), second_eq a b (show 0 < 4 by decide)⟩
  | case4 a b c r ih =>
    have ha := a.toNat_lt
    have hb := b.toNat_lt
    have hc := c.toNat_lt
    have hx := value?_digit (a.toNat / 4) (by omega)
    have hy := value?_digit (a.toNat % 4 * 16 + b.toNat / 16) (by omega)
    have hz := value?_digit (b.toNat % 16 * 4 + c.toNat / 64) (by omega)
    have hw := value?_digit (c.toNat % 64) (by omega)
    have hd := digit_ne_fill (c.toNat % 64) (by omega)
    simpa [decode?, hx, hy, hz, hw, hd, ih] using
      ⟨first_eq a (show b.toNat / 16 < 16 by omega),
        second_eq a b (show c.toNat / 64 < 4 by omega), third_eq b c⟩

end Registrar.Base64
