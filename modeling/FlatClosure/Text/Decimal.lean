/-!
# Decimal digits and double precision

`ofDigits` reads digits as a natural number.  Numbers are not computed with in double precision
here, but some are refused for being too large for it, so the module says how a natural number is
rounded (`roundToDouble`), from where on there is only infinity (`infinityBound`), and which decimal
numbers lie there (`overflows`).
-/

namespace FlatClosure

/-- The number that decimal digits write. -/
def ofDigits (ds : List Char) : Nat := ds.foldl (fun n c => 10 * n + (c.toNat - 48)) 0

/-- The digits at the start, and the rest. -/
def splitDigits (cs : List Char) : List Char × List Char :=
  (cs.takeWhile Char.isDigit, cs.dropWhile Char.isDigit)

/-- The nearest number with at most 53 binary digits, zeros at the end apart; of two such numbers
the one whose last digit is even. -/
def roundToDouble (n : Nat) : Nat :=
  let unit := Nat.pow 2 (n.log2 - 52)
  let kept := n / unit
  let lost := n % unit
  let up := unit < 2 * lost || (unit == 2 * lost && kept % 2 == 1)
  (if up then kept + 1 else kept) * unit

/-- The least number that double precision rounds to infinity: it lies half a step above the
largest finite one. -/
def infinityBound : Nat := Nat.pow 2 1024 - Nat.pow 2 970

/-- Double precision rounds the decimal fraction with the digits `ds` after the point, times ten to
the power of `places`, to infinity.  As long as the first digit is not zero, that is decided by
`places` alone unless it is 309. -/
def overflows (ds : List Char) (places : Int) : Bool :=
  let significant := ds.dropWhile (· == '0')
  let places := places - (ds.length - significant.length : Nat)
  !significant.isEmpty && 309 ≤ places &&
    (309 < places ||
      infinityBound * Nat.pow 10 significant.length ≤ ofDigits significant * Nat.pow 10 309)

end FlatClosure
