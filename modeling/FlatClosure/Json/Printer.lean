import FlatClosure.Json.Basic
import FlatClosure.Text.Quoted

/-!
# JSON text

Two layouts of a JSON value: `compact` writes no blanks at all, `indented` writes every item and
field on a line of its own, two blanks deeper than the bracket around it.  Empty arrays and
objects stay `[]` and `{}` in both.
-/

namespace FlatClosure

namespace Json

/-- Two hexadecimal digits. -/
def hexByte (n : Nat) : String :=
  String.ofList [Nat.digitChar (n / 16), Nat.digitChar (n % 16)]

/-- A character as it is written between the quotes of a string: quote, backslash and the control
characters below U+0020 are escaped, everything else stands for itself. -/
def escape (c : Char) : String :=
  if c = '"' then "\\\""
  else if c = '\\' then "\\\\"
  else if c = '\n' then "\\n"
  else if c = '\r' then "\\r"
  else if c = '\t' then "\\t"
  else if c = '\x08' then "\\b"
  else if c = '\x0c' then "\\f"
  else if c.toNat < 0x20 then "\\u00" ++ hexByte c.toNat
  else c.toString

/-- A string with its quotes. -/
def stringText (s : String) : String :=
  "\"" ++ String.join (s.toList.map escape) ++ "\""

/-- A scalar value; arrays and objects have no scalar text. -/
def scalarText : Json → String
  | .null => "null"
  | .bool true => "true"
  | .bool false => "false"
  | .int n => toString n
  | .real literal => literal
  | .str s => stringText s
  | .arr _ | .obj _ => ""

/-! ### Without blanks -/

mutual

/-- The value without blanks. -/
def compact : Json → String
  | .arr items => "[" ++ compactItems items ++ "]"
  | .obj fields => "\x7b" ++ compactFields fields ++ "\x7d"
  | j => j.scalarText

/-- Items with commas between them. -/
def compactItems : List Json → String
  | [] => ""
  | [j] => j.compact
  | j :: js => j.compact ++ "," ++ compactItems js

/-- Fields with commas between them. -/
def compactFields : List (String × Json) → String
  | [] => ""
  | [(k, j)] => stringText k ++ ":" ++ j.compact
  | (k, j) :: fs => stringText k ++ ":" ++ j.compact ++ "," ++ compactFields fs

end

/-! ### One line for each item -/

/-- The start of a line at a level of nesting. -/
def lineStart (level : Nat) : String := "\n" ++ String.ofList (List.replicate (2 * level) ' ')

mutual

/-- The value on lines of its own, the brackets around it standing at `level`. -/
def indentedAt (level : Nat) : Json → String
  | .arr [] => "[]"
  | .arr items => "[" ++ indentedItems (level + 1) items ++ lineStart level ++ "]"
  | .obj [] => "\x7b\x7d"
  | .obj fields => "\x7b" ++ indentedFields (level + 1) fields ++ lineStart level ++ "\x7d"
  | j => j.scalarText

/-- Items, each on its line. -/
def indentedItems (level : Nat) : List Json → String
  | [] => ""
  | [j] => lineStart level ++ j.indentedAt level
  | j :: js => lineStart level ++ j.indentedAt level ++ "," ++ indentedItems level js

/-- Fields, each on its line. -/
def indentedFields (level : Nat) : List (String × Json) → String
  | [] => ""
  | [(k, j)] => lineStart level ++ stringText k ++ ": " ++ j.indentedAt level
  | (k, j) :: fs =>
    lineStart level ++ stringText k ++ ": " ++ j.indentedAt level ++ "," ++ indentedFields level fs

end

/-- The value with two blanks of indentation for each level. -/
def indented (j : Json) : String := j.indentedAt 0

end Json

end FlatClosure
