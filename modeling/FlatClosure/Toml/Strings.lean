import FlatClosure.Text.Hex

/-!
# Strings in TOML text

Strings stand in double quotes, with escapes, or in single quotes, without.  Three quotes at each
end allow a string to run over several lines; then one or two quotes may stand before the closing
three, and a backslash at the end of a line joins it to the next text.

Line ends are a single newline here: the reader of documents sees to that.  Every function
answers with what it has read and with the text that follows.
-/

namespace FlatClosure

namespace Toml

/-- A blank inside a line. -/
def isGap (c : Char) : Bool := c == ' ' || c == '\t'

/-- A character that may stand in a comment or, quotes and backslashes apart, in a string. -/
def isText (c : Char) : Bool := c == '\t' || (0x20 ≤ c.toNat && c.toNat != 0x7f)

/-- The character of a one-letter escape. -/
def shortEscape? (c : Char) : Option Char :=
  [('b', '\x08'), ('t', '\t'), ('n', '\n'), ('f', '\x0c'), ('r', '\r'), ('"', '"'),
    ('\\', '\\')].lookup c

/-- Put a character before the text of a string. -/
def push (c : Char) (r : Option (List Char × List Char)) : Option (List Char × List Char) :=
  r.map fun (s, rest) => (c :: s, rest)

/-- The end of a string, after a quote `q` that may close it.  On one line any quote closes the
string.  Otherwise three quotes do, and up to two before them belong to it. -/
def closing? (multi : Bool) (q : Char) (cs : List Char) : Option (List Char × List Char) :=
  if !multi then some ([], cs)
  else
    match (cs.takeWhile (· == q)).length with
    | 0 | 1 => none
    | 2 => some ([], cs.drop 2)
    | 3 => some ([q], cs.drop 3)
    | _ => some ([q, q], cs.drop 4)

/-- What the characters read last have begun in a string with escapes. -/
inductive Mode where
  /-- Nothing. -/
  | text
  /-- An escape. -/
  | escape
  /-- An escape by code point: the number of digits that are missing, and the value of those
  read. -/
  | unit (missing value : Nat)
  /-- A line that ends in a backslash, up to its end. -/
  | lineEnd
  /-- The blanks and line ends after that. -/
  | joining

/-- The rest of a string in double quotes. -/
def basicRest (multi : Bool) : Mode → List Char → Option (List Char × List Char)
  | _, [] => none
  | .escape, c :: cs =>
    match shortEscape? c with
    | some d => push d (basicRest multi .text cs)
    | none =>
      if c = 'u' then basicRest multi (.unit 4 0) cs
      else if c = 'U' then basicRest multi (.unit 8 0) cs
      else if multi && c = '\n' then basicRest multi .joining cs
      else if multi && isGap c then basicRest multi .lineEnd cs
      else none
  | .unit missing value, c :: cs =>
    match hexValue? c with
    | none => none
    | some d =>
      let value := 16 * value + d
      if 1 < missing then basicRest multi (.unit (missing - 1) value) cs
      else if value.isValidChar then push (Char.ofNat value) (basicRest multi .text cs)
      else none
  | .lineEnd, c :: cs =>
    if c = '\n' then basicRest multi .joining cs
    else if isGap c then basicRest multi .lineEnd cs
    else none
  | mode, c :: cs =>
    if mode matches .joining && (c = '\n' || isGap c) then basicRest multi .joining cs
    else if c = '\\' then basicRest multi .escape cs
    else if c = '"' then
      match closing? multi '"' cs with
      | some r => some r
      | none => push '"' (basicRest multi .text cs)
    else if isText c || (multi && c = '\n') then push c (basicRest multi .text cs)
    else none

/-- The rest of a string in single quotes. -/
def literalRest (multi : Bool) : List Char → Option (List Char × List Char)
  | [] => none
  | c :: cs =>
    if c = '\x27' then
      match closing? multi '\x27' cs with
      | some r => some r
      | none => push '\x27' (literalRest multi cs)
    else if isText c || (multi && c = '\n') then push c (literalRest multi cs)
    else none

/-- The text without a line end at its start. -/
def dropLineEnd : List Char → List Char
  | '\n' :: cs => cs
  | cs => cs

/-- A string on one line. -/
def lineString? : List Char → Option (String × List Char)
  | '"' :: cs => (basicRest false .text cs).map fun (s, r) => (String.ofList s, r)
  | '\x27' :: cs => (literalRest false cs).map fun (s, r) => (String.ofList s, r)
  | _ => none

/-- A string. -/
def string? (cs : List Char) : Option (String × List Char) :=
  match cs with
  | '"' :: '"' :: '"' :: rest =>
    (basicRest true .text (dropLineEnd rest)).map fun (s, r) => (String.ofList s, r)
  | '\x27' :: '\x27' :: '\x27' :: rest =>
    (literalRest true (dropLineEnd rest)).map fun (s, r) => (String.ofList s, r)
  | _ => lineString? cs

end Toml

end FlatClosure
