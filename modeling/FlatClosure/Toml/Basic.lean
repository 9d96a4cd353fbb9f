/-!
# TOML documents

A document is a list of lines: headers, which open a table, and entries, which give a value to a
key.  Keys may be dotted, so the key of an entry is a path.  Numbers, truth values, dates and times
keep their text only.

`distinctKeys` is the rule that no key is given twice: of two entries of one table, neither path
continues the other.
-/

namespace FlatClosure

/-- A TOML value. -/
inductive Toml where
  | str (value : String)
  /-- A number, a truth value, a date or a time, as it was written. -/
  | word (literal : String)
  | arr (items : List Toml)
  /-- A table written in braces. -/
  | table (entries : List (List String × Toml))
deriving Inhabited

namespace Toml

mutual

/-- The number of levels of arrays and tables. -/
def depth : Toml → Nat
  | .arr items => 1 + depthItems items
  | .table entries => 1 + depthEntries entries
  | _ => 0

/-- The number of levels inside an array. -/
def depthItems : List Toml → Nat
  | [] => 0
  | v :: vs => max v.depth (depthItems vs)

/-- The number of levels inside a table. -/
def depthEntries : List (List String × Toml) → Nat
  | [] => 0
  | (_, v) :: es => max v.depth (depthEntries es)

end

/-- The greatest number of levels of a value, and of parts of a key. -/
def maxNesting : Nat := 79

/-- A key and its value. -/
abbrev Entry := List String × Toml

/-- A line of a document that is neither empty nor a comment. -/
inductive Line where
  /-- The header of a table, or of one more table of an array of tables. -/
  | header (path : List String) (repeated : Bool)
  | entry (e : Entry)

/-- The entry of a line. -/
def Line.assignment? : Line → Option Entry
  | .entry e => some e
  | .header .. => none

/-- No path continues another path, nor is it given twice. -/
def distinctKeys : List Entry → Bool
  | [] => true
  | (p, _) :: es => es.all (fun (q, _) => !p.isPrefixOf q && !q.isPrefixOf p) && distinctKeys es

end Toml

end FlatClosure
