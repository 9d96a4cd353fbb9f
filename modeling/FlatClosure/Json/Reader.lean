import FlatClosure.Json.Number
import FlatClosure.Json.Shape
import FlatClosure.Text.Hex

/-!
# Reading JSON text

Reading goes in two sweeps, each of them a fold over its input, so both end on every text.

* `Json.tokens?` cuts the text into tokens.  Its state `Scan` says what the characters read last
  have begun: nothing, a word (a literal name or a number), or a string.
* `Json.ofTokens?` builds the value.  Its state is the stack of the arrays and objects that are
  still open, and what may come next.  The height of the stack is the nesting of the text, which
  is how a limit on the nesting is enforced.

`Json.read?` is strict: no comma at an end, nothing after the value, no control character inside a
string.  In the parts that its shape names it also refuses a half of a surrogate pair, a number out
of range, and nesting beyond the limit.
-/

namespace FlatClosure

namespace Json

/-! ### Tokens -/

/-- A token of JSON text. -/
inductive Token where
  | openArr
  | closeArr
  | openObj
  | closeObj
  | colon
  | comma
  /-- A literal name or a number.  A number out of range has no value. -/
  | word (value : Option Json)
  /-- A string.  One with half of a surrogate pair has no value. -/
  | text (value : Option String)

/-- A word outside strings: a literal name or a number. -/
def word? (cs : List Char) : Option Token :=
  if cs = "null".toList then some (.word (some .null))
  else if cs = "true".toList then some (.word (some (.bool true)))
  else if cs = "false".toList then some (.word (some (.bool false)))
  else (Numeral.ofChars? cs).map fun n => .word (n.value? cs)

/-- What the characters read last have begun.  The characters of a string are kept in reverse, and
no longer once it has half of a surrogate pair. -/
inductive Scan where
  /-- Nothing. -/
  | between
  /-- A literal name or a number, in reverse. -/
  | word (chars : List Char)
  /-- A string. -/
  | text (chars : Option (List Char))
  /-- An escape in a string. -/
  | escape (chars : Option (List Char))
  /-- An escape by code unit: the first half of the surrogate pair, if one was read before, the
  number of digits that are missing, and the value of those read. -/
  | unit (chars : Option (List Char)) (high : Option Nat) (missing : Nat) (value : Nat)
  /-- A surrogate pair of which the first half is read. -/
  | half (chars : Option (List Char)) (high : Nat)
  /-- The same, with a backslash after the first half. -/
  | halfEscape (chars : Option (List Char)) (high : Nat)

/-- The character of a one-letter escape. -/
def shortEscape? (c : Char) : Option Char :=
  [('"', '"'), ('\\', '\\'), ('/', '/'), ('b', '\x08'), ('f', '\x0c'), ('n', '\n'), ('r', '\r'),
    ('t', '\t')].lookup c

/-- The state after one more character of a string. -/
def pushChar (c : Char) (chars : Option (List Char)) : Scan := .text (chars.map (c :: ·))

/-- The state after the last digit of an escape by code unit. -/
def closeUnit (chars : Option (List Char)) (high : Option Nat) (value : Nat) : Scan :=
  let isLow := 0xdc00 ≤ value && value ≤ 0xdfff
  match high with
  | some h =>
    if isLow then pushChar (Char.ofNat (0x10000 + (h - 0xd800) * 0x400 + (value - 0xdc00))) chars
    else .text none
  | none =>
    if 0xd800 ≤ value && value ≤ 0xdbff then .half chars value
    else if isLow then .text none
    else pushChar (Char.ofNat value) chars

/-- The token of a single character. -/
def mark? (c : Char) : Option Token :=
  [('[', .openArr), (']', .closeArr), ('\x7b', .openObj), ('\x7d', .closeObj), (':', .colon),
    (',', .comma)].lookup c

/-- The blanks between tokens. -/
def isSpace (c : Char) : Bool := c == ' ' || c == '\n' || c == '\r' || c == '\t'

/-- Read a character when nothing is begun.  Tokens are kept in reverse. -/
def scanFresh (c : Char) (ts : List Token) : Scan × List Token :=
  match mark? c with
  | some t => (.between, t :: ts)
  | none =>
    if isSpace c then (.between, ts)
    else if c = '"' then (.text (some []), ts)
    else (.word [c], ts)

/-- Read a character of a string. -/
def scanText (chars : Option (List Char)) (c : Char) (ts : List Token) :
    Option (Scan × List Token) :=
  if c = '"' then some (.between, .text (chars.map fun cs => String.ofList cs.reverse) :: ts)
  else if c = '\\' then some (.escape chars, ts)
  else if c.toNat < 0x20 then none
  else some (pushChar c chars, ts)

/-- Read a character after a backslash in a string. -/
def scanEscape (chars : Option (List Char)) (c : Char) (ts : List Token) :
    Option (Scan × List Token) :=
  if c = 'u' then some (.unit chars none 4 0, ts)
  else (shortEscape? c).map fun d => (pushChar d chars, ts)

/-- Read one character. -/
def scanStep : Scan × List Token → Char → Option (Scan × List Token)
  | (.between, ts), c => some (scanFresh c ts)
  | (.word cs, ts), c =>
    if (mark? c).isSome || isSpace c || c = '"' then
      (word? cs.reverse).map fun t => scanFresh c (t :: ts)
    else some (.word (c :: cs), ts)
  | (.text chars, ts), c => scanText chars c ts
  | (.escape chars, ts), c => scanEscape chars c ts
  | (.unit chars high missing value, ts), c => do
    let value := 16 * value + (← hexValue? c)
    if missing ≤ 1 then return (closeUnit chars high value, ts)
    else return (.unit chars high (missing - 1) value, ts)
  | (.half chars high, ts), c =>
    if c = '\\' then some (.halfEscape chars high, ts) else scanText none c ts
  | (.halfEscape chars high, ts), c =>
    if c = 'u' then some (.unit chars (some high) 4 0, ts) else scanEscape none c ts

/-- The tokens of a text. -/
def tokens? (cs : List Char) : Option (List Token) := do
  match ← cs.foldlM scanStep (.between, []) with
  | (.between, ts) => some ts.reverse
  | (.word ds, ts) => (word? ds.reverse).map fun t => (t :: ts).reverse
  | _ => none

/-! ### Values -/

/-- An array or object that is still open, its parts in reverse. -/
inductive Level where
  /-- The shape of the items to come, and the items read so far. -/
  | arr (shape : Shape) (items : List Json)
  /-- The shape, the fields read so far and the name of the field being read. -/
  | obj (shape : Shape) (fields : List (String × Json)) (key : String)

/-- What may come next. -/
inductive Expecting where
  /-- A value. -/
  | value
  /-- The first item of an array, or its end. -/
  | firstItem
  /-- The first field of an object, or its end. -/
  | firstField
  /-- A field. -/
  | field
  /-- The colon after the name of a field. -/
  | colon
  /-- A comma, or the end of what is open. -/
  | next
  /-- Nothing: the whole value is there. -/
  | nothing (value : Json)

/-- The shape of the next value, `root` being that of the whole text. -/
def nextShape (root : Shape) : List Level → Shape
  | [] => root
  | .arr s _ :: _ => s.item
  | .obj s _ key :: _ => s.field key

/-- The state after a value that stands in the levels given.  A field that is not looked at is
dropped. -/
def close (v : Json) : List Level → List Level × Expecting
  | [] => ([], .nothing v)
  | .arr s items :: ls => (.arr s.rest (v :: items) :: ls, .next)
  | .obj s fields key :: ls =>
    (.obj s (if (s.field key).isSkipped then fields else (key, v) :: fields) "" :: ls, .next)

/-- The state after a scalar.  Only where it is looked at does it need a value. -/
def closeScalar? (s : Shape) (v : Option Json) (ls : List Level) :
    Option (List Level × Expecting) :=
  if s.isSkipped then some (close .null ls) else v.map fun j => close j ls

/-- Open an array or object, unless it is looked at and `limit` levels are open already. -/
def openLevel? (limit : Option Nat) (s : Shape) (l : Level) (e : Expecting) (ls : List Level) :
    Option (List Level × Expecting) :=
  if !s.isSkipped && limit.any (· ≤ ls.length) then none else some (l :: ls, e)

/-- Read one token where a value of shape `s` may start. -/
def valueStep (limit : Option Nat) (s : Shape) (ls : List Level) :
    Token → Option (List Level × Expecting)
  | .word v => closeScalar? s v ls
  | .text v => closeScalar? s (v.map .str) ls
  | .openArr => openLevel? limit s (.arr s []) .firstItem ls
  | .openObj => openLevel? limit s (.obj s [] "") .firstField ls
  | _ => none

/-- Read the name of a field.  Only where the object is looked at does it need a value. -/
def keyStep (s : Shape) (fields : List (String × Json)) (key : Option String) (ls : List Level) :
    Option (List Level × Expecting) :=
  if s.isSkipped then some (.obj s fields "" :: ls, .colon)
  else key.map fun k => (.obj s fields k :: ls, .colon)

/-- Read one token. -/
def buildStep (root : Shape) (limit : Option Nat) :
    List Level × Expecting → Token → Option (List Level × Expecting)
  | (ls, .value), t => valueStep limit (nextShape root ls) ls t
  | (.arr _ items :: ls, .firstItem), .closeArr => some (close (.arr items.reverse) ls)
  | (ls, .firstItem), t => valueStep limit (nextShape root ls) ls t
  | (.obj _ fields _ :: ls, .firstField), .closeObj => some (close (.obj fields.reverse) ls)
  | (.obj s fields _ :: ls, .firstField), .text k => keyStep s fields k ls
  | (.obj s fields _ :: ls, .field), .text k => keyStep s fields k ls
  | (ls, .colon), .colon => some (ls, .value)
  | (.arr s items :: ls, .next), .comma => some (.arr s items :: ls, .value)
  | (.arr _ items :: ls, .next), .closeArr => some (close (.arr items.reverse) ls)
  | (.obj s fields k :: ls, .next), .comma => some (.obj s fields k :: ls, .field)
  | (.obj _ fields _ :: ls, .next), .closeObj => some (close (.obj fields.reverse) ls)
  | _, _ => none

/-- The value that a list of tokens writes, as far as the shape looks at it, nested to at most
`limit` levels. -/
def ofTokens? (shape : Shape) (limit : Option Nat) (ts : List Token) : Option Json := do
  match ← ts.foldlM (buildStep shape limit) ([], .value) with
  | (_, .nothing v) => some v
  | _ => none

/-- The value of a JSON text, as far as the shape looks at it, nested to at most `limit`
levels. -/
def read? (shape : Shape) (limit : Option Nat) (s : String) : Option Json := do
  ofTokens? shape limit (← tokens? s.toList)

end Json

end FlatClosure
