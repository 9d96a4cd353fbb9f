import FlatClosure.Eval.Error
import FlatClosure.Syntax.Render

/-!
# Integer arithmetic

Integers are words of 64 bits.  An operation computes the exact result among all integers and then
checks that it fits a word; a result that does not fit is an overflow, never a wrapped number.
Division goes to the floor, and the remainder has the sign of the divisor: both are made from the
division of words, which goes toward zero.
-/

namespace FlatClosure

/-- The number fits a word. -/
def fitsWord (n : Int) : Bool := Int64.minValue.toInt ≤ n && n ≤ Int64.maxValue.toInt

/-- The exact result of an operation as a word. -/
def checked (operation : String) (n : Int) : Except EvalError Int64 :=
  if fitsWord n then .ok (Int64.ofInt n) else .error (.overflow operation)

/-- One of the numbers is negative and the other is not. -/
def oppositeSigns (a b : Int64) : Bool := decide (a < 0) != decide (b < 0)

/-- The result of a division, unless the divisor is zero or the quotient does not fit a word. -/
def dividing (operation : String) (a b result : Int64) : Except EvalError Int64 :=
  if b = 0 then .error .divisionByZero
  else if fitsWord (a.toInt.tdiv b.toInt) then .ok result
  else .error (.overflow operation)

/-- The quotient rounded to the floor.  Division of words rounds toward zero, which is one too many
where the exact quotient is negative and no integer. -/
def floorQuotient (a b : Int64) : Int64 :=
  if a % b ≠ 0 ∧ oppositeSigns a b then a / b - 1 else a / b

/-- The remainder of the division to the floor.  The remainder of words has the sign of the dividend
and is moved by one divisor where that is the wrong sign. -/
def floorRemainder (a b : Int64) : Int64 :=
  let r := a % b
  if r ≠ 0 ∧ oppositeSigns r b then r + b else r

/-- Division to the floor. -/
def floorDiv (a b : Int64) : Except EvalError Int64 := dividing "//" a b (floorQuotient a b)

/-- The remainder is refused with the quotient: where that does not fit, this counts as an overflow
too. -/
def floorMod (a b : Int64) : Except EvalError Int64 := dividing "%" a b (floorRemainder a b)

/-- A power.  The exponent has to be a word of 32 bits without sign.  Only the powers of 0, 1 and -1
fit a word for every exponent, and no others do from 64 on. -/
def power (a b : Int64) : Except EvalError Int64 :=
  let e := b.toInt.toNat
  if b < 0 ∨ UInt32.size ≤ e then .error (.unsupported "negative exponent")
  else if 64 ≤ e then
    if a = 0 ∨ a = 1 then .ok a
    else if a = -1 then .ok (if e % 2 = 0 then 1 else -1)
    else .error (.overflow "pow")
  else checked "pow" (a.toInt.pow e)

/-- The result of a comparison sign on two values in the given order. -/
def comparison (op : BinaryOp) (o : Ordering) : Bool :=
  match op with
  | .lt => o == .lt
  | .le => o != .gt
  | .gt => o == .gt
  | _ => o != .lt

end FlatClosure
