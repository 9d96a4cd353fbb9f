import FlatClosure.Text.Decimal
import FlatClosure.Text.Hex

/-!
# Numbers, truth values, dates and times in TOML text

Nothing here needs the value of a scalar without quotes, so it is only checked: `isNumber` and
`isDateTime` say which words are one.  A number must fit: whole numbers a signed word of 64 bits,
and others double precision, from which only a number that rounds to positive infinity is
excluded.

A blank may stand between a date and a time, so such a scalar consists of two words; `word?` reads
both.
-/

namespace FlatClosure

namespace Toml

/-! ### Numbers -/

/-- Digits of a base, with single underscores between them. -/
def areDigits (isDigit : Char → Bool) : List Char → Bool
  | [] => false
  | [c] => isDigit c
  | '_' :: _ => false
  | c :: '_' :: cs => isDigit c && areDigits isDigit cs
  | c :: cs => isDigit c && areDigits isDigit cs

/-- The digits alone. -/
def dropUnderscores (cs : List Char) : List Char := cs.filter (· != '_')

/-- A whole number without sign in digits of a base, of at most 63 bits. -/
def isBased (base : Nat) (cs : List Char) : Bool :=
  let isDigit (c : Char) : Bool := (hexValue? c).any (· < base)
  let value := (dropUnderscores cs).foldl (fun n c => base * n + (hexValue? c).getD 0) 0
  areDigits isDigit cs && value < Nat.pow 2 63

/-- The digits of a whole number without superfluous zeros. -/
def isWhole (cs : List Char) : Bool :=
  areDigits Char.isDigit cs && (cs.length == 1 || cs.head? != some '0')

/-- The text without a sign at its start. -/
def dropSign : List Char → List Char
  | '+' :: cs | '-' :: cs => cs
  | cs => cs

/-- The text starts with a minus sign. -/
def isNegative (cs : List Char) : Bool := cs.head? == some '-'

/-- A whole number in decimal digits. -/
def isInteger (cs : List Char) : Bool :=
  let value := ofDigits (dropUnderscores (dropSign cs))
  isWhole (dropSign cs) && if isNegative cs then value ≤ Nat.pow 2 63 else value < Nat.pow 2 63

/-- A number with a fraction, an exponent, or both. -/
def isReal (cs : List Char) : Bool :=
  let isE (c : Char) : Bool := c == 'e' || c == 'E'
  let mantissa := (dropSign cs).takeWhile (!isE ·)
  let exponent := (dropSign cs).dropWhile (!isE ·)
  let whole := mantissa.takeWhile (· != '.')
  let fraction := mantissa.dropWhile (· != '.')
  let power : Int := ofDigits (dropUnderscores (dropSign exponent.tail))
  let power := if isNegative exponent.tail then -power else power
  isWhole whole && !(fraction.isEmpty && exponent.isEmpty) &&
    (fraction.isEmpty || areDigits Char.isDigit fraction.tail) &&
    (exponent.isEmpty || areDigits Char.isDigit (dropSign exponent.tail)) &&
    (isNegative cs ||
      !overflows (dropUnderscores (whole ++ fraction.tail))
        ((dropUnderscores whole).length + power))

/-- A number. -/
def isNumber (cs : List Char) : Bool :=
  match cs with
  | '0' :: 'x' :: ds => isBased 16 ds
  | '0' :: 'o' :: ds => isBased 8 ds
  | '0' :: 'b' :: ds => isBased 2 ds
  | _ => ["inf".toList, "nan".toList].contains (dropSign cs) || isInteger cs || isReal cs

/-! ### Dates and times -/

/-- Digits of a number between two bounds. -/
def areWithin (lo hi : Nat) (ds : List Char) : Bool :=
  ds.all Char.isDigit && lo ≤ ofDigits ds && ofDigits ds ≤ hi

/-- The year has a day more. -/
def isLeapYear (year : Nat) : Bool := year % 4 == 0 && (year % 100 != 0 || year % 400 == 0)

/-- The number of days of a month. -/
def daysIn (year month : Nat) : Nat :=
  if month == 2 then if isLeapYear year then 29 else 28
  else if [4, 6, 9, 11].contains month then 30
  else 31

/-- A date: year, month and day. -/
def isDate : List Char → Bool
  | [y₁, y₂, y₃, y₄, '-', m₁, m₂, '-', d₁, d₂] =>
    let year := [y₁, y₂, y₃, y₄]
    year.all Char.isDigit && areWithin 1 12 [m₁, m₂] &&
      areWithin 1 (daysIn (ofDigits year) (ofDigits [m₁, m₂])) [d₁, d₂]
  | _ => false

/-- The text without a fraction of a second at its start. -/
def dropFraction : List Char → List Char
  | '.' :: d :: cs => if d.isDigit then cs.dropWhile Char.isDigit else '.' :: d :: cs
  | cs => cs

/-- A time of day at the start, and the rest.  A minute may have a leap second. -/
def time? : List Char → Option (List Char)
  | h₁ :: h₂ :: ':' :: m₁ :: m₂ :: ':' :: s₁ :: s₂ :: cs =>
    if areWithin 0 23 [h₁, h₂] && areWithin 0 59 [m₁, m₂] && areWithin 0 60 [s₁, s₂] then
      some (dropFraction cs)
    else none
  | _ => none

/-- An offset from universal time, which may be missing. -/
def isOffset : List Char → Bool
  | [] | ['Z'] | ['z'] => true
  | [sign, h₁, h₂, ':', m₁, m₂] =>
    (sign == '+' || sign == '-') && areWithin 0 23 [h₁, h₂] && areWithin 0 59 [m₁, m₂]
  | _ => false

/-- A time of day alone, which has no offset. -/
def isTime (cs : List Char) : Bool := (time? cs).any List.isEmpty

/-- The time of day of a date. -/
def isTimeOfDate (cs : List Char) : Bool := (time? cs).any isOffset

/-- A date, a time, or both with a letter between them. -/
def isDateTime (cs : List Char) : Bool :=
  isTime cs ||
    isDate (cs.take 10) &&
      match cs.drop 10 with
      | [] => true
      | c :: rest => (c == 'T' || c == 't') && isTimeOfDate rest

/-! ### Words -/

/-- A character of a key without quotes. -/
def isBare (c : Char) : Bool := c.isAlphanum || c == '_' || c == '-'

/-- A character of a word. -/
def isWordChar (c : Char) : Bool := isBare c || c == '+' || c == '.' || c == ':'

/-- A word that is a scalar by itself. -/
def isScalar (cs : List Char) : Bool :=
  ["true".toList, "false".toList].contains cs || isNumber cs || isDateTime cs

/-- A number, a truth value, a date or a time, and the text that follows. -/
def word? (cs : List Char) : Option (String × List Char) := do
  let word := cs.takeWhile isWordChar
  let rest := cs.dropWhile isWordChar
  guard (isScalar word)
  match rest with
  | ' ' :: d :: ds =>
    if isDate word && d.isDigit then
      let time := (d :: ds).takeWhile isWordChar
      guard (isTimeOfDate time)
      return (String.ofList (word ++ ' ' :: time), (d :: ds).dropWhile isWordChar)
    else return (String.ofList word, rest)
  | _ => return (String.ofList word, rest)

end Toml

end FlatClosure
