import FlatClosure.Toml.Basic
import FlatClosure.Toml.Scalar
import FlatClosure.Toml.Strings

/-!
# Reading TOML text

`Toml.read?` answers with the lines of a document.  The readers of parts answer with what they
have read and with the text that follows.  Those of nested parts are given fuel, of which the
length of the text determines enough: each step either reads a character or goes from a part to
its first part, and the latter at most twice in a row.
-/

namespace FlatClosure

namespace Toml

/-! ### Between the parts -/

/-- The text without the blanks at its start. -/
def dropGaps (cs : List Char) : List Char := cs.dropWhile isGap

/-- The text without blanks, line ends and comments at its start.  The flag says that a comment is
open. -/
def dropTrivia : Bool → List Char → Option (List Char)
  | _, [] => some []
  | comment, c :: cs =>
    if c = '\n' then dropTrivia false cs
    else if comment then if isText c then dropTrivia true cs else none
    else if c = '#' then dropTrivia true cs
    else if isGap c then dropTrivia false cs
    else some (c :: cs)

/-! ### Keys -/

/-- A key without dots. -/
def key? (cs : List Char) : Option (String × List Char) :=
  match cs.takeWhile isBare with
  | [] => lineString? cs
  | name => some (String.ofList name, cs.dropWhile isBare)

/-- The parts of a dotted key. -/
def parts? : Nat → List Char → Option (List String × List Char)
  | 0, _ => none
  | n + 1, cs => do
    let (k, cs) ← key? cs
    match dropGaps cs with
    | '.' :: cs =>
      let (ks, cs) ← parts? n (dropGaps cs)
      return (k :: ks, cs)
    | cs => return ([k], cs)

/-- A dotted key of no more parts than may be nested. -/
def path? (fuel : Nat) (cs : List Char) : Option (List String × List Char) := do
  let (path, cs) ← parts? fuel cs
  guard (path.length ≤ maxNesting)
  return (path, cs)

/-! ### Values -/

mutual

/-- A value. -/
def value? : Nat → List Char → Option (Toml × List Char)
  | 0, _ => none
  | n + 1, cs =>
    match cs with
    | '[' :: cs => (items? n cs).map fun (vs, cs) => (.arr vs, cs)
    | '\x7b' :: cs =>
      match dropGaps cs with
      | '\x7d' :: cs => some (.table [], cs)
      | cs => do
        let (es, cs) ← entries? n cs
        guard (distinctKeys es)
        return (.table es, cs)
    | '"' :: _ | '\x27' :: _ => (string? cs).map fun (s, cs) => (.str s, cs)
    | cs => (word? cs).map fun (s, cs) => (.word s, cs)

/-- The items of an array and its closing bracket. -/
def items? : Nat → List Char → Option (List Toml × List Char)
  | 0, _ => none
  | n + 1, cs => do
    match ← dropTrivia false cs with
    | ']' :: cs => return ([], cs)
    | cs =>
      let (v, cs) ← value? n cs
      match ← dropTrivia false cs with
      | ']' :: cs => return ([v], cs)
      | ',' :: cs =>
        let (vs, cs) ← items? n cs
        return (v :: vs, cs)
      | _ => none

/-- A key and its value. -/
def assignment? : Nat → List Char → Option (Entry × List Char)
  | 0, _ => none
  | n + 1, cs => do
    let (path, cs) ← path? n cs
    match cs with
    | '=' :: cs =>
      let (v, cs) ← value? n (dropGaps cs)
      return ((path, v), cs)
    | _ => none

/-- The entries of a table in braces and its closing brace. -/
def entries? : Nat → List Char → Option (List Entry × List Char)
  | 0, _ => none
  | n + 1, cs => do
    let (e, cs) ← assignment? n cs
    match dropGaps cs with
    | '\x7d' :: cs => return ([e], cs)
    | ',' :: cs =>
      let (es, cs) ← entries? n (dropGaps cs)
      return (e :: es, cs)
    | _ => none

end

/-! ### Documents -/

/-- A header or an entry. -/
def line? (fuel : Nat) : List Char → Option (Line × List Char)
  | '[' :: '[' :: cs => do
    let (path, cs) ← path? fuel (dropGaps cs)
    let ']' :: ']' :: cs := cs | none
    return (.header path true, cs)
  | '[' :: cs => do
    let (path, cs) ← path? fuel (dropGaps cs)
    let ']' :: cs := cs | none
    return (.header path false, cs)
  | cs => do
    let (e, cs) ← assignment? fuel cs
    guard (e.2.depth ≤ maxNesting)
    return (.entry e, cs)

/-- The text is at the end of a line, or before a comment. -/
def atLineEnd : List Char → Bool
  | [] => true
  | c :: _ => c == '\n' || c == '#'

/-- The lines of a document. -/
def lines? : Nat → List Char → Option (List Line)
  | 0, _ => none
  | n + 1, cs => do
    match ← dropTrivia false cs with
    | [] => return []
    | cs =>
      let (l, cs) ← line? n cs
      let cs := dropGaps cs
      guard (atLineEnd cs)
      return l :: (← lines? n cs)

/-- A carriage return and a newline are one line end. -/
def joinLineEnds : List Char → List Char
  | '\r' :: '\n' :: cs => '\n' :: joinLineEnds cs
  | c :: cs => c :: joinLineEnds cs
  | [] => []

/-- The text without a byte order mark at its start. -/
def dropMark : List Char → List Char
  | '\ufeff' :: cs => cs
  | cs => cs

/-- The lines of a TOML text. -/
def read? (text : String) : Option (List Line) :=
  let cs := joinLineEnds (dropMark text.toList)
  lines? (2 * cs.length + 4) cs

end Toml

end FlatClosure
