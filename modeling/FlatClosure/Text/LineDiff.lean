import FlatClosure.Text.EditScript

/-!
# Line diffs

`lineDiff` compares two texts line by line and shows all lines of both: those that are kept, those
that are removed and those that are added, each with a sign in front of it.
-/

namespace FlatClosure

/-- The lines of a text with their ends: a newline, a carriage return, or both. -/
def linesWithEnds : List Char → List (List Char)
  | [] => []
  | '\r' :: '\n' :: cs => ['\r', '\n'] :: linesWithEnds cs
  | c :: cs =>
    if c = '\n' || c = '\r' then [c] :: linesWithEnds cs
    else
      match linesWithEnds cs with
      | [] => [[c]]
      | l :: ls => (c :: l) :: ls

/-- The text of a line behind its sign: without its newline, but with a newline of its own. -/
def signed (sign : Char) (line : String) : String :=
  String.ofList (sign :: line.toList.filter (· != '\n')) ++ "\n"

/-- A change with its sign. -/
def Change.render : Change String → String
  | .kept l => signed ' ' l
  | .removed l => signed '-' l
  | .added l => signed '+' l

/-- The lines of a text as texts. -/
def textLines (s : String) : List String := (linesWithEnds s.toList).map String.ofList

/-- The changes from one text to another, a line for each line of either. -/
def lineDiff (before after : String) : String :=
  String.join ((Edit.changes (textLines before) (textLines after)).map Change.render)

end FlatClosure
