import FlatClosure.Json.Basic
import FlatClosure.Text.Decimal

/-!
# Numbers in JSON text

`Numeral.ofChars?` splits a number into its parts, and `Numeral.value?` gives it a value.  A
number has none when it is out of range: every number that is not a whole number of 64 bits counts
as a number of double precision, which must be finite.
-/

namespace FlatClosure

namespace Json

/-- The parts of a number. -/
structure Numeral where
  negative : Bool
  /-- The digits before the point. -/
  whole : List Char
  /-- The digits after the point, if there is one. -/
  fraction : List Char
  /-- The exponent, if there is one: whether it is negative, and its digits. -/
  exponent : Option (Bool × List Char)

namespace Numeral

/-! ### Form -/

/-- A fraction, which may be missing, and the rest. -/
def fraction? : List Char → Option (List Char × List Char)
  | '.' :: cs => if (splitDigits cs).1.isEmpty then none else some (splitDigits cs)
  | cs => some ([], cs)

/-- The digits of an exponent after its sign. -/
def exponentDigits? (negative : Bool) (ds : List Char) : Option (Bool × List Char) :=
  if ds.isEmpty || !ds.all Char.isDigit then none else some (negative, ds)

/-- An exponent, which may be missing, and nothing after it. -/
def exponent? : List Char → Option (Option (Bool × List Char))
  | [] => some none
  | e :: cs =>
    if e == 'e' || e == 'E' then
      (match cs with
      | '-' :: ds => exponentDigits? true ds
      | '+' :: ds => exponentDigits? false ds
      | ds => exponentDigits? false ds).map some
    else none

/-- The parts of a number, the whole part of which has no superfluous zeros. -/
def ofChars? (cs : List Char) : Option Numeral := do
  let negative := cs.head? == some '-'
  let (whole, rest) := splitDigits (if negative then cs.tail else cs)
  guard (!whole.isEmpty && (whole.length == 1 || whole.head? != some '0'))
  let (fraction, rest) ← fraction? rest
  return { negative, whole, fraction, exponent := ← exponent? rest }

/-! ### Range -/

/-- Append digits to a number as long as it fits a word of 64 bits.  The second part of the answer
are the digits that are left. -/
def appendDigits : Nat → List Char → Nat × List Char
  | n, [] => (n, [])
  | n, c :: cs =>
    let m := 10 * n + (c.toNat - 48)
    if m < Nat.pow 2 64 then appendDigits m cs else (n, c :: cs)

/-- The digits as a number of 64 bits, and the power of ten that it is to be multiplied with, the
exponent apart.  Digits that do not fit are dropped; those before the point still count as
places. -/
def scaled (n : Numeral) : Nat × Int :=
  let (w, spare) := appendDigits 0 n.whole
  let (m, dropped) := appendDigits w n.fraction
  (m, (spare.length + dropped.length : Nat) - (n.fraction.length : Int))

/-- The number `m * 10 ^ e` is finite in double precision, where each factor is rounded before
they are multiplied. -/
def isFinite (m : Nat) (e : Int) : Bool :=
  m == 0 || e < 0 ||
    (e ≤ 308 && roundToDouble m * roundToDouble (Nat.pow 10 e.toNat) < infinityBound)

/-- The number is in range.  An exponent of more than 31 bits is as good as infinite. -/
def inRange (n : Numeral) : Bool :=
  let (m, e) := n.scaled
  match n.exponent with
  | none => isFinite m e
  | some (negative, ds) =>
    if Nat.pow 2 31 ≤ ofDigits ds then m == 0 || negative
    else isFinite m (if negative then e - ofDigits ds else e + ofDigits ds)

/-! ### Value -/

/-- The value of a number that was written as `cs`.  Only a number without fraction and exponent,
other than a negative zero, is a whole number. -/
def value? (n : Numeral) (cs : List Char) : Option Json :=
  if !n.inRange then none
  else if n.fraction.isEmpty && n.exponent.isNone && !(n.negative && n.whole == ['0']) then
    some (.int (if n.negative then -(ofDigits n.whole : Int) else ofDigits n.whole))
  else some (.real (String.ofList cs))

end Numeral

end Json

end FlatClosure
